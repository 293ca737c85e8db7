import CivilTime.Compilation
import CivilTime.Proofs.Links

/-!
What back links lead to. The names that links give to zones are the least set that holds the names
of the zones and, with the target of a link, its name too; the links that are left over are those
whose targets are not in it. If every name is given once, each leads along one chain to its zone,
and the order of the links makes no difference.
-/

namespace CivilTime

def NameMap.keys {α : Type} (map : NameMap α) : Set String :=
  {name | ∃ value, map.find? name = some value}

theorem NameMap.notMem_keys {α : Type} {map : NameMap α} {name : String} :
    name ∉ map.keys ↔ map.find? name = none := by
  unfold keys
  cases hfind : map.find? name with
  | none => simp [hfind]
  | some value => simp [hfind]

theorem NameMap.keys_insert {α : Type} (map : NameMap α) (name : String) (value : α) :
    (map.insert name value).keys = Insert.insert name map.keys := by
  ext other
  by_cases hother : other = name
  · simp [keys, find?_insert, hother]
  · simp [keys, find?_insert, hother]

namespace LinkResolution

open Source (Link)

variable {zones : NameMap TimeZone} {links : List Link}

theorem pass_cons_of_missing {link : Link} (h : zones.find? link.target = none)
    (rest : List Link) : pass zones (link :: rest) =
      { pass zones rest with unresolved := link :: (pass zones rest).unresolved } := by
  rw [pass]
  simp only [h]

theorem pass_cons_of_found {link : Link} {zone : TimeZone}
    (h : zones.find? link.target = some zone) (rest : List Link) :
    pass zones (link :: rest) =
      { pass (zones.insert link.name zone) rest with
        resolved := (pass (zones.insert link.name zone) rest).resolved + 1
        messages := .debug ("Back link: " ++ link.name ++ " -> " ++ zone.id) ::
          (pass (zones.insert link.name zone) rest).messages } := by
  rw [pass]
  simp only [h]

theorem keys_subset_pass (zones : NameMap TimeZone) (links : List Link) :
    zones.keys ⊆ (pass zones links).zones.keys := by
  induction links generalizing zones with
  | nil => exact subset_rfl
  | cons link rest ih =>
    cases hfind : zones.find? link.target with
    | none =>
      rw [pass_cons_of_missing hfind]
      exact ih zones
    | some zone =>
      rw [pass_cons_of_found hfind]
      apply subset_trans _ (ih _)
      rw [NameMap.keys_insert]
      exact Set.subset_insert _ _

/-- A link that a pass goes through is left over, or its name has a zone. -/
theorem pass_mem_cases (zones : NameMap TimeZone) {link : Link} (h : link ∈ links) :
    link ∈ (pass zones links).unresolved ∨ link.name ∈ (pass zones links).zones.keys := by
  induction links generalizing zones with
  | nil => cases h
  | cons first rest ih =>
    cases hfind : zones.find? first.target with
    | none =>
      rw [pass_cons_of_missing hfind]
      rcases List.mem_cons.mp h with rfl | hrest
      · exact Or.inl List.mem_cons_self
      · exact (ih zones hrest).imp_left (List.mem_cons_of_mem first)
    | some zone =>
      rw [pass_cons_of_found hfind]
      rcases List.mem_cons.mp h with rfl | hrest
      · right
        apply keys_subset_pass
        rw [NameMap.keys_insert]
        exact Set.mem_insert _ _
      · exact ih _ hrest

theorem pass_count (zones : NameMap TimeZone) (links : List Link) :
    (pass zones links).resolved + (pass zones links).unresolved.length = links.length := by
  induction links generalizing zones with
  | nil => rfl
  | cons link rest ih =>
    cases hfind : zones.find? link.target with
    | none =>
      have hrest := ih zones
      rw [pass_cons_of_missing hfind]
      simp only [List.length_cons]
      omega
    | some zone =>
      have hrest := ih (zones.insert link.name zone)
      rw [pass_cons_of_found hfind]
      simp only [List.length_cons]
      omega

/-- The targets of the links that a pass resolves have zones afterwards and ever after. So among the
links whose targets have none in a later map, the pass leaves out none. -/
theorem pass_filter (zones later : NameMap TimeZone) (links : List Link)
    (h : (pass zones links).zones.keys ⊆ later.keys) :
    (pass zones links).unresolved.filter (fun link => (later.find? link.target).isNone) =
      links.filter fun link => (later.find? link.target).isNone := by
  induction links generalizing zones with
  | nil => rfl
  | cons link rest ih =>
    cases hfind : zones.find? link.target with
    | none =>
      rw [pass_cons_of_missing hfind] at h ⊢
      rw [List.filter_cons, List.filter_cons, ih zones h]
    | some zone =>
      rw [pass_cons_of_found hfind] at h ⊢
      have hbefore : zones.keys ⊆ (zones.insert link.name zone).keys := by
        rw [NameMap.keys_insert]
        exact Set.subset_insert _ _
      obtain ⟨found, hlater⟩ : link.target ∈ later.keys :=
        h (keys_subset_pass _ rest (hbefore ⟨zone, hfind⟩))
      rw [List.filter_cons, hlater]
      exact ih _ h

/-- A pass that leaves over as many links as there were has found no target and done nothing. -/
theorem pass_of_no_progress (h : (pass zones links).unresolved.length = links.length) :
    pass zones links = { zones, unresolved := links } ∧
      ∀ link ∈ links, zones.find? link.target = none := by
  induction links with
  | nil => exact ⟨rfl, by simp⟩
  | cons link rest ih =>
    cases hfind : zones.find? link.target with
    | none =>
      rw [pass_cons_of_missing hfind] at h ⊢
      obtain ⟨hrest, hmissing⟩ := ih (by simpa using h)
      rw [hrest]
      exact ⟨rfl, List.forall_mem_cons.mpr ⟨hfind, hmissing⟩⟩
    | some zone =>
      rw [pass_cons_of_found hfind] at h
      have hfewer := pass_unresolved_length (zones.insert link.name zone) rest
      simp only [List.length_cons] at h
      omega

/-- A set of names that holds those of the zones and is closed under links. -/
structure IsClosed (zones : NameMap TimeZone) (links : List Link) (names : Set String) : Prop where
  zones : zones.keys ⊆ names
  links : ∀ link ∈ links, link.target ∈ names → link.name ∈ names

/-- A pass stays within every closed set, and what it leaves over is closed there too. -/
theorem IsClosed.pass {names : Set String} (h : IsClosed zones links names) :
    IsClosed (pass zones links).zones (pass zones links).unresolved names := by
  induction links generalizing zones with
  | nil => exact h
  | cons link rest ih =>
    obtain ⟨hlink, hrest⟩ := List.forall_mem_cons.mp h.links
    cases hfind : zones.find? link.target with
    | none =>
      rw [pass_cons_of_missing hfind]
      obtain ⟨hzones, hleft⟩ := ih ⟨h.zones, hrest⟩
      exact ⟨hzones, List.forall_mem_cons.mpr ⟨hlink, hleft⟩⟩
    | some zone =>
      rw [pass_cons_of_found hfind]
      apply ih
      constructor
      · rw [NameMap.keys_insert]
        exact Set.insert_subset (hlink (h.zones ⟨zone, hfind⟩)) h.zones
      · exact hrest

theorem keys_subset_resolve (zones : NameMap TimeZone) (links : List Link) :
    zones.keys ⊆ (resolve zones links).zones.keys := by
  fun_induction resolve zones links with
  | case1 zones links _ => exact keys_subset_pass zones links
  | case2 zones links _ ih => exact (keys_subset_pass zones links).trans ih

theorem resolve_subset {names : Set String} (h : IsClosed zones links names) :
    (resolve zones links).zones.keys ⊆ names := by
  fun_induction resolve zones links with
  | case1 zones links _ => exact h.pass.zones
  | case2 zones links _ ih => exact ih h.pass

theorem resolve_count (zones : NameMap TimeZone) (links : List Link) :
    (resolve zones links).resolved + (resolve zones links).unresolved.length = links.length := by
  fun_induction resolve zones links with
  | case1 zones links _ => exact pass_count zones links
  | case2 zones links _ ih =>
    have hfirst := pass_count zones links
    simp only [Pass.followedBy]
    omega

/-- The links that are left over are those whose targets have no zone in the end. -/
theorem resolve_unresolved (zones : NameMap TimeZone) (links : List Link) :
    (resolve zones links).unresolved =
      links.filter fun link => ((resolve zones links).zones.find? link.target).isNone := by
  fun_induction resolve zones links with
  | case1 zones links hstill =>
    obtain ⟨hpass, hmissing⟩ := pass_of_no_progress hstill
    rw [hpass, eq_comm, List.filter_eq_self]
    intro link hlink
    simp [hmissing link hlink]
  | case2 zones links _ ih =>
    exact ih.trans (pass_filter zones _ links (keys_subset_resolve _ _))

theorem resolve_mem_cases (zones : NameMap TimeZone) {link : Link} (h : link ∈ links) :
    link ∈ (resolve zones links).unresolved ∨ link.name ∈ (resolve zones links).zones.keys := by
  fun_induction resolve zones links with
  | case1 zones links _ => exact pass_mem_cases zones h
  | case2 zones links _ ih =>
    rcases pass_mem_cases zones h with hleft | hnamed
    · exact ih hleft
    · exact Or.inr (keys_subset_resolve _ _ hnamed)

theorem resolve_isClosed (zones : NameMap TimeZone) (links : List Link) :
    IsClosed zones links (resolve zones links).zones.keys := by
  constructor
  · exact keys_subset_resolve zones links
  · intro link hlink htarget
    apply (resolve_mem_cases zones hlink).resolve_left
    intro hleft
    rw [resolve_unresolved, List.mem_filter, Option.isNone_iff_eq_none] at hleft
    exact NameMap.notMem_keys.mpr hleft.2 htarget

/-- A name leads to a zone: it is the name of the zone, or that of a link whose target leads there.
-/
inductive LeadsTo (zones : NameMap TimeZone) (links : List Link) : String → TimeZone → Prop
  | zone {name : String} {zone : TimeZone} (hfind : zones.find? name = some zone) :
      LeadsTo zones links name zone
  | link {link : Link} {zone : TimeZone} (hlink : link ∈ links)
      (htarget : LeadsTo zones links link.target zone) : LeadsTo zones links link.name zone

theorem LeadsTo.of_subset {others : NameMap TimeZone} {more : List Link} {name : String}
    {zone : TimeZone} (h : LeadsTo zones links name zone)
    (hzones : ∀ name, zones.find? name = others.find? name) (hsubset : links ⊆ more) :
    LeadsTo others more name zone := by
  induction h with
  | zone hfind => exact .zone ((hzones _).symm.trans hfind)
  | link hlink _ ih => exact .link (hsubset hlink) ih

/-- Every entry of the map has been put there along some chain. -/
theorem leadsTo_of_pass {start : NameMap TimeZone} {all : List Link}
    (hzones : ∀ name zone, zones.find? name = some zone → LeadsTo start all name zone)
    (hlinks : links ⊆ all) {name : String} {zone : TimeZone}
    (h : (pass zones links).zones.find? name = some zone) : LeadsTo start all name zone := by
  induction links generalizing zones with
  | nil => exact hzones name zone h
  | cons link rest ih =>
    obtain ⟨hlink, hrest⟩ := List.cons_subset.mp hlinks
    cases hfind : zones.find? link.target with
    | none =>
      rw [pass_cons_of_missing hfind] at h
      exact ih hzones hrest h
    | some target =>
      rw [pass_cons_of_found hfind] at h
      apply ih _ hrest h
      intro other found hfound
      rw [NameMap.find?_insert] at hfound
      split at hfound
      · next hother =>
        rw [hother, ← Option.some.inj hfound]
        exact .link hlink (hzones link.target target hfind)
      · exact hzones other found hfound

theorem pass_unresolved_subset (zones : NameMap TimeZone) (links : List Link) :
    (pass zones links).unresolved ⊆ links := by
  induction links generalizing zones with
  | nil => exact List.Subset.refl _
  | cons link rest ih =>
    cases hfind : zones.find? link.target with
    | none =>
      rw [pass_cons_of_missing hfind]
      exact List.cons_subset_cons link (ih zones)
    | some zone =>
      rw [pass_cons_of_found hfind]
      exact List.Subset.trans (ih _) (List.subset_cons_self link rest)

/-- A name that no link gives keeps its zone. -/
theorem pass_find?_of_ne {name : String} (h : ∀ link ∈ links, link.name ≠ name) :
    (pass zones links).zones.find? name = zones.find? name := by
  induction links generalizing zones with
  | nil => rfl
  | cons link rest ih =>
    obtain ⟨hlink, hrest⟩ := List.forall_mem_cons.mp h
    cases hfind : zones.find? link.target with
    | none =>
      rw [pass_cons_of_missing hfind]
      exact ih hrest
    | some zone =>
      rw [pass_cons_of_found hfind]
      exact (ih hrest).trans ((zones.find?_insert _ _ _).trans (if_neg hlink.symm))

theorem resolve_find?_of_ne {name : String} (h : ∀ link ∈ links, link.name ≠ name) :
    (resolve zones links).zones.find? name = zones.find? name := by
  fun_induction resolve zones links with
  | case1 zones links _ => exact pass_find?_of_ne h
  | case2 zones links _ ih =>
    have hleft : ∀ link ∈ (pass zones links).unresolved, link.name ≠ name :=
      fun link hlink => h link (pass_unresolved_subset zones links hlink)
    exact (ih hleft).trans (pass_find?_of_ne h)

theorem leadsTo_of_resolve {start : NameMap TimeZone} {all : List Link}
    (hzones : ∀ name zone, zones.find? name = some zone → LeadsTo start all name zone)
    (hlinks : links ⊆ all) {name : String} {zone : TimeZone}
    (h : (resolve zones links).zones.find? name = some zone) : LeadsTo start all name zone := by
  fun_induction resolve zones links with
  | case1 zones links _ => exact leadsTo_of_pass hzones hlinks h
  | case2 zones links _ ih =>
    apply ih _ (List.Subset.trans (pass_unresolved_subset zones links) hlinks) h
    intro other found hfound
    exact leadsTo_of_pass hzones hlinks hfound

structure NamedOnce (zones : NameMap TimeZone) (links : List Link) : Prop where
  distinct : (links.map Link.name).Nodup
  fresh : ∀ link ∈ links, link.name ∉ zones.keys

theorem NamedOnce.of_perm {others : NameMap TimeZone} {other : List Link}
    (h : NamedOnce zones links) (hzones : ∀ name, others.find? name = zones.find? name)
    (hperm : other.Perm links) : NamedOnce others other := by
  constructor
  · exact (hperm.map Link.name).nodup_iff.mpr h.distinct
  · intro link hlink
    rw [NameMap.notMem_keys, hzones, ← NameMap.notMem_keys]
    exact h.fresh link (hperm.mem_iff.mp hlink)

/-- If every name is given once, there is one chain only. -/
theorem LeadsTo.unique (h : NamedOnce zones links) {name : String} {first second : TimeZone}
    (hfirst : LeadsTo zones links name first) (hsecond : LeadsTo zones links name second) :
    first = second := by
  induction hfirst with
  | zone hfind =>
    cases hsecond with
    | zone hother => exact Option.some.inj (hfind.symm.trans hother)
    | link hlink _ => exact absurd ⟨_, hfind⟩ (h.fresh _ hlink)
  | @link link zone hlink _ ih =>
    generalize hname : link.name = name at hsecond
    cases hsecond with
    | zone hother => exact absurd ⟨_, hname ▸ hother⟩ (h.fresh link hlink)
    | @link other _ hother htarget =>
      obtain rfl := List.inj_on_of_nodup_map h.distinct hlink hother hname
      exact ih htarget

/-- If every name is given once, the map gives each name the zone at the end of its chain. -/
theorem resolve_find?_iff (h : NamedOnce zones links) (name : String) (zone : TimeZone) :
    (resolve zones links).zones.find? name = some zone ↔ LeadsTo zones links name zone := by
  have hsound : ∀ {other found}, (resolve zones links).zones.find? other = some found →
      LeadsTo zones links other found :=
    leadsTo_of_resolve (fun _ _ hfind => .zone hfind) (List.Subset.refl _)
  constructor
  · exact hsound
  · intro hleads
    have hkey : name ∈ (resolve zones links).zones.keys := by
      have hclosed := resolve_isClosed zones links
      clear hsound
      induction hleads with
      | zone hfind => exact hclosed.zones ⟨_, hfind⟩
      | link hlink _ ih => exact hclosed.links _ hlink ih
    obtain ⟨found, hfound⟩ := hkey
    rw [hfound, (hsound hfound).unique h hleads]

/-- If every name is given once, neither the order of the zones nor that of the links makes a
difference. -/
theorem resolve_find?_perm {others : NameMap TimeZone} {other : List Link}
    (h : NamedOnce zones links) (hzones : ∀ name, others.find? name = zones.find? name)
    (hperm : other.Perm links) (name : String) :
    (resolve others other).zones.find? name = (resolve zones links).zones.find? name := by
  apply Option.ext
  intro zone
  rw [resolve_find?_iff h, resolve_find?_iff (h.of_perm hzones hperm)]
  constructor
  · exact fun hleads => hleads.of_subset hzones hperm.subset
  · exact fun hleads => hleads.of_subset (fun name => (hzones name).symm) hperm.symm.subset

end LinkResolution

namespace Compilation

open Source (Link)

theorem resolveLinks_eq (zones : NameMap TimeZone) (links : List Link) (before : Session) :
    resolveLinks zones links before =
      .ok (LinkResolution.resolve zones links).zones
        { before with
          backLinksResolved :=
            before.backLinksResolved + (LinkResolution.resolve zones links).resolved
          linksDropped :=
            before.linksDropped + (LinkResolution.resolve zones links).unresolved.length
          messages := before.messages ++ (LinkResolution.resolve zones links).messages ++
            (LinkResolution.resolve zones links).unresolved.map LinkResolution.dropped } := by
  have hlength :
      ((LinkResolution.resolve zones links).unresolved.map LinkResolution.dropped).length =
        (LinkResolution.resolve zones links).unresolved.length := List.length_map _
  rw [← hlength]
  rfl

/-- What resolving back links comes to. It ends; the names that then have a zone are the least set
that holds the names of the zones and is closed under the links; every link is counted once, as
resolved or as dropped; and those that are dropped, with one warning each, are those whose targets
are not in that set. If no name is given twice, the zones keep theirs, every other name gets the
zone at the end of its chain of links, and this is so for every order of the links. -/
theorem resolveLinks_closure (zones : NameMap TimeZone) (links : List Link) (before : Session) :
    ∃ names after, resolveLinks zones links before = .ok names after ∧
      IsLeast {keys | LinkResolution.IsClosed zones links keys} names.keys ∧
      after.backLinksResolved + after.linksDropped =
        before.backLinksResolved + before.linksDropped + links.length ∧
      (∃ lost notes, lost = links.filter (fun link => (names.find? link.target).isNone) ∧
        after.linksDropped = before.linksDropped + lost.length ∧
        after.messages = before.messages ++ notes ++ lost.map LinkResolution.dropped ∧
        ∀ note ∈ notes, note.level = .debug) ∧
      ((links.map Link.name).Nodup → (∀ link ∈ links, link.name ∉ zones.keys) →
        (∀ name zone, zones.find? name = some zone → names.find? name = some zone) ∧
        (∀ name zone, names.find? name = some zone ↔
          LinkResolution.LeadsTo zones links name zone) ∧
        ∀ other, other.Perm links → ∃ otherNames otherAfter,
          resolveLinks zones other before = .ok otherNames otherAfter ∧
            ∀ name, otherNames.find? name = names.find? name) := by
  refine ⟨_, _, resolveLinks_eq zones links before, ⟨LinkResolution.resolve_isClosed zones links,
    fun keys hclosed => LinkResolution.resolve_subset hclosed⟩, ?_, ?_, ?_⟩
  · have hcount := LinkResolution.resolve_count zones links
    simp only
    omega
  · exact ⟨_, _, LinkResolution.resolve_unresolved zones links, rfl, rfl,
      LinkResolution.resolve_levels zones links⟩
  · intro hdistinct hfresh
    have honce : LinkResolution.NamedOnce zones links := ⟨hdistinct, hfresh⟩
    refine ⟨fun name zone hfind => ?_, LinkResolution.resolve_find?_iff honce, ?_⟩
    · exact (LinkResolution.resolve_find?_iff honce name zone).mpr (.zone hfind)
    · intro other hperm
      exact ⟨_, _, resolveLinks_eq zones other before,
        LinkResolution.resolve_find?_perm honce (fun _ => rfl) hperm⟩

def tangledLinks : List Link :=
  [⟨"B", "C"⟩, ⟨"A", "B"⟩, ⟨"X", "Y"⟩, ⟨"Y", "X"⟩, ⟨"N", "D"⟩]

def lonelyZone : TimeZone :=
  { id := "A", transitions := #[⟨Instant.earliest, "STD", 0, 0⟩] }

/-- The chain is resolved to its end; the cycle and the link to nowhere are not. -/
theorem resolveLinks_closure_tangled :
    (tangledLinks.map Link.name).Nodup ∧
      (∀ link ∈ tangledLinks, link.name ∉ NameMap.keys [("A", lonelyZone)]) ∧
      ∃ names after, resolveLinks [("A", lonelyZone)] tangledLinks
          { outputDirectory := none, disk := {} } = .ok names after ∧
        names.find? "C" = some lonelyZone ∧ names.keys ⊆ {"A", "B", "C"} ∧
        after.backLinksResolved + after.linksDropped = 5 := by
  have hdistinct : (tangledLinks.map Link.name).Nodup := by decide
  have hfresh : ∀ link ∈ tangledLinks, link.name ∉ NameMap.keys [("A", lonelyZone)] := by
    simp only [NameMap.notMem_keys]
    decide
  obtain ⟨names, after, hrun, hleast, hcount, -, hchains⟩ := resolveLinks_closure
    [("A", lonelyZone)] tangledLinks { outputDirectory := none, disk := {} }
  refine ⟨hdistinct, hfresh, names, after, hrun, ?_, ?_, hcount⟩
  · apply ((hchains hdistinct hfresh).2.1 "C" lonelyZone).mpr
    have hfirst : LinkResolution.LeadsTo [("A", lonelyZone)] tangledLinks "A" lonelyZone :=
      .zone rfl
    have hsecond : LinkResolution.LeadsTo [("A", lonelyZone)] tangledLinks "B" lonelyZone :=
      .link (show ⟨"A", "B"⟩ ∈ tangledLinks by decide) hfirst
    exact .link (show ⟨"B", "C"⟩ ∈ tangledLinks by decide) hsecond
  · apply hleast.2
    constructor
    · rintro name ⟨zone, hfind⟩
      have hentry := List.mem_singleton.mp (NameMap.mem_of_find? hfind)
      simp [(Prod.mk.inj hentry).1]
    · decide

end Compilation

end CivilTime
