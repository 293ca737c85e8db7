import CivilTime.Proofs.Bytes

/-!
Data that has been cut off. A reader is steady if what it finds in some data stays the same when
more data follows; only running out of data is something that more data can mend. So a steady
reader that uses up some data runs out of data on every proper beginning of it.
-/

namespace CivilTime.Bytes

def DecodeError.IsEndOfData : DecodeError → Prop
  | .endOfData _ _ _ => True
  | .malformedText | .unknownName _ _ | .unknownPair _ _ _ | .trailingData _ => False

def Cursor.extend (cursor : Cursor) (more : List UInt8) : Cursor :=
  ⟨cursor.position, cursor.rest ++ more⟩

/-- Items are read one after another. -/
theorem Reader.manyOnto_succ {α : Type} (item : Reader α) (count : Nat) (read : List α) :
    Reader.manyOnto item (count + 1) read =
      item >>= fun a => Reader.manyOnto item count (a :: read) := by
  funext cursor
  change _ = EStateM.bind item _ cursor
  cases hitem : item cursor with
  | ok a between => simp only [Reader.manyOnto, EStateM.bind, hitem]
  | error error between => simp only [Reader.manyOnto, EStateM.bind, hitem]

/-- More data at the end changes nothing, unless the data had run out. -/
structure Steady {α : Type} (reader : Reader α) : Prop where
  ok : ∀ {cursor a after}, reader cursor = .ok a after → ∀ more,
    reader (cursor.extend more) = .ok a (after.extend more)
  error : ∀ {cursor error after}, reader cursor = .error error after → ¬ error.IsEndOfData →
    ∀ more, reader (cursor.extend more) = .error error (after.extend more)

namespace Steady

variable {α β : Type}

theorem pure (a : α) : Steady (Pure.pure a) := by
  constructor
  · intro cursor result after h more
    cases h
    rfl
  · intro cursor error after h
    cases h

theorem throw (error : DecodeError) : Steady (α := α) (MonadExcept.throw error) := by
  constructor
  · intro cursor a after h
    cases h
  · intro cursor found after h _ more
    cases h
    rfl

theorem bind {reader : Reader α} {next : α → Reader β} (h : Steady reader)
    (hnext : ∀ a, Steady (next a)) : Steady (reader >>= next) := by
  have hbind : ∀ cursor, (reader >>= next) cursor = EStateM.bind reader next cursor := fun _ => rfl
  constructor
  · intro cursor b after hrun more
    rw [hbind, EStateM.bind] at hrun ⊢
    cases hfirst : reader cursor with
    | error error between => simp [hfirst] at hrun
    | ok a between =>
      rw [hfirst] at hrun
      rw [h.ok hfirst more]
      exact (hnext a).ok hrun more
  · intro cursor error after hrun hother more
    rw [hbind, EStateM.bind] at hrun ⊢
    cases hfirst : reader cursor with
    | error found between =>
      rw [hfirst] at hrun
      cases hrun
      rw [h.error hfirst hother more]
    | ok a between =>
      rw [hfirst] at hrun
      rw [h.ok hfirst more]
      exact (hnext a).error hrun hother more

theorem take (size : Nat) : Steady (Reader.take size) := by
  constructor
  · intro cursor taken after h more
    unfold Reader.take splitExactly? at h ⊢
    by_cases henough : (cursor.rest.take size).length = size
    · have hsize : size ≤ cursor.rest.length := by
        rw [← henough]
        exact List.length_take_le' size cursor.rest
      rw [if_pos henough] at h
      cases h
      simp [Cursor.extend, List.take_append_of_le_length hsize, List.drop_append_of_le_length hsize,
        hsize]
    · rw [if_neg henough] at h
      cases h
  · intro cursor error after h hother more
    unfold Reader.take at h
    split at h
    · cases h
    · cases h
      exact absurd trivial hother

theorem nat (bytes : Nat) : Steady (Reader.nat bytes) := by
  apply bind (take bytes)
  intro taken
  exact pure _

theorem text : Steady Reader.text := by
  apply bind (nat 2)
  intro size
  apply bind (take size)
  intro bytes
  cases ofUtf8? bytes with
  | none => exact throw .malformedText
  | some text => exact pure text

theorem manyOnto {item : Reader α} (h : Steady item) (count : Nat) (read : List α) :
    Steady (Reader.manyOnto item count read) := by
  induction count generalizing read with
  | zero => exact pure read.reverse
  | succ count ih =>
    rw [Reader.manyOnto_succ]
    exact bind h fun a => ih (a :: read)

theorem many {item : Reader α} (h : Steady item) (count : Nat) :
    Steady (Reader.many count item) :=
  manyOnto h count []

/-- A steady reader that uses up some data does not come to its end on a proper beginning of it. -/
theorem run_cut {reader : Reader α} (h : Steady reader) {cut more : List UInt8} {a : α}
    {position : Nat} (hwhole : reader (.start (cut ++ more)) = .ok a ⟨position, []⟩)
    (hmore : more ≠ []) :
    ∃ error after, reader (.start cut) = .error error after ∧ error.IsEndOfData := by
  have hextended : reader (Cursor.extend (.start cut) more) = .ok a ⟨position, []⟩ := hwhole
  cases hcut : reader (.start cut) with
  | ok found after =>
    rw [h.ok hcut more] at hextended
    injection hextended with _ hafter
    have hrest : after.rest ++ more = [] := congrArg Cursor.rest hafter
    exact absurd (List.append_eq_nil_iff.mp hrest).2 hmore
  | error error after =>
    refine ⟨error, after, rfl, ?_⟩
    by_contra hother
    rw [h.error hcut hother more] at hextended
    cases hextended

theorem runOn_cut {reader : Reader α} (h : Steady reader) {cut more : List UInt8} {a : α}
    (hreads : ReadsAll reader (cut ++ more) a) (hmore : more ≠ []) :
    ∃ error : DecodeError, reader.runOn cut = .error error ∧ error.IsEndOfData := by
  obtain ⟨error, after, hcut, hend⟩ := h.run_cut (hreads 0) hmore
  refine ⟨error, ?_, hend⟩
  rw [Reader.runOn, hcut]

end Steady

end CivilTime.Bytes
