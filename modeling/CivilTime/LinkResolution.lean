import CivilTime.Message
import CivilTime.Source.Database
import CivilTime.TimeZone

/-!
Back links become names for the zones they lead to. A link may lead to another link, so that the
links are gone through again and again until nothing more is resolved.
-/

namespace CivilTime

/-- A map from names to values, each name once, in the order in which the names first came. -/
abbrev NameMap (α : Type) := List (String × α)

namespace NameMap

variable {α : Type}

def find? (map : NameMap α) (name : String) : Option α :=
  (List.find? (fun entry => entry.1 = name) map).map Prod.snd

/-- Gives a name a value. A name that has one keeps its place. -/
def insert (map : NameMap α) (name : String) (value : α) : NameMap α :=
  if map.any fun entry => entry.1 = name then
    map.map fun entry => if entry.1 = name then (name, value) else entry
  else map ++ [(name, value)]

def ofList (entries : List (String × α)) : NameMap α :=
  entries.foldl (fun map entry => map.insert entry.1 entry.2) []

end NameMap

end CivilTime

namespace CivilTime.LinkResolution

open Source (Link)

structure Pass where
  zones : NameMap TimeZone
  unresolved : List Link := []
  resolved : Nat := 0
  messages : List Message := []

/-- Goes through links in order; each may use what those before it have resolved. -/
def pass (zones : NameMap TimeZone) : List Link → Pass
  | [] => { zones }
  | link :: rest =>
    match zones.find? link.target with
    | none =>
      let after := pass zones rest
      { after with unresolved := link :: after.unresolved }
    | some zone =>
      let after := pass (zones.insert link.name zone) rest
      { after with
        resolved := after.resolved + 1
        messages := .debug ("Back link: " ++ link.name ++ " -> " ++ zone.id) :: after.messages }

def Pass.followedBy (first rest : Pass) : Pass :=
  { rest with
    resolved := first.resolved + rest.resolved
    messages := first.messages ++ rest.messages }

theorem pass_unresolved_length (zones : NameMap TimeZone) (links : List Link) :
    (pass zones links).unresolved.length ≤ links.length := by
  induction links generalizing zones with
  | nil => simp [pass]
  | cons link rest ih =>
    rw [pass]
    split
    · simpa using ih zones
    · next zone _ =>
      exact Nat.le_succ_of_le (ih (zones.insert link.name zone))

/-- Goes through links until a pass resolves none of them. Those left over are the unresolved ones.
-/
def resolve (zones : NameMap TimeZone) (links : List Link) : Pass :=
  if _h : (pass zones links).unresolved.length = links.length then pass zones links
  else (pass zones links).followedBy
    (resolve (pass zones links).zones (pass zones links).unresolved)
  termination_by links.length
  decreasing_by
    exact Nat.lt_of_le_of_ne (pass_unresolved_length zones links) _h

def dropped (link : Link) : Message :=
  .warning ("Cannot find time zone '" ++ link.target ++ "' to link alias '" ++ link.name ++ "' to")

end CivilTime.LinkResolution
