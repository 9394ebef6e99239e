import Mathlib

/-! `std::map` as the daemon uses it, over association lists. `insert` keeps a
binding that is already there, `at` throws `std::out_of_range` on a missing key, and
iteration visits the keys in ascending order. -/

namespace Porla
variable {α : Type} [DecidableEq α] {β : α → Type}

/-- `std::map::insert`: a key that is already bound keeps its value. -/
def mapInsert (m : AList β) (key : α) (value : β key) : AList β :=
  if key ∈ m then m else m.insert key value

/-- `std::map::at`. -/
def mapAt (m : AList β) (key : α) : Except String (β key) :=
  match m.lookup key with
  | some value => .ok value
  | none => .error "map::at"

/-- Iteration over a `std::map`: its bindings in ascending order of their keys under the
key type's `operator<`, `lt`. -/
def mapEntries (lt : α → α → Bool) (m : AList β) : List (Sigma β) :=
  m.entries.insertionSort fun a b => lt a.1 b.1

omit [DecidableEq α] in
theorem mapEntries_perm (lt : α → α → Bool) (m : AList β) : (mapEntries lt m).Perm m.entries :=
  List.perm_insertionSort _ _

omit [DecidableEq α] in
@[simp] theorem length_mapEntries (lt : α → α → Bool) (m : AList β) :
    (mapEntries lt m).length = m.entries.length :=
  (mapEntries_perm lt m).length_eq

theorem mapInsert_of_mem {m : AList β} {key : α} (value : β key) (bound : key ∈ m) :
    mapInsert m key value = m := if_pos bound

theorem mapInsert_of_not_mem {m : AList β} {key : α} (value : β key) (free : key ∉ m) :
    mapInsert m key value = m.insert key value := if_neg free

@[simp] theorem mem_mapInsert {m : AList β} {key other : α} {value : β key} :
    other ∈ mapInsert m key value ↔ other = key ∨ other ∈ m := by
  unfold mapInsert
  split
  · constructor
    · exact Or.inr
    · rintro (rfl | bound) <;> assumption
  · exact AList.mem_insert m

theorem lookup_mapInsert_ne {m : AList β} {key other : α} {value : β key} (different : other ≠ key) :
    (mapInsert m key value).lookup other = m.lookup other := by
  unfold mapInsert
  split
  · rfl
  · exact AList.lookup_insert_ne different

theorem lookup_mapInsert_self (m : AList β) (key : α) (value : β key) :
    (mapInsert m key value).lookup key = some ((m.lookup key).getD value) := by
  unfold mapInsert
  split
  · next bound =>
    obtain ⟨found, eq⟩ := Option.isSome_iff_exists.mp (AList.lookup_isSome.mpr bound)
    simp [eq]
  · next free => simp [AList.lookup_insert, AList.lookup_eq_none.mpr free]

/-- A key bound after `insert` was bound before, to the same value, or is bound to the
value inserted. -/
theorem lookup_mapInsert_of_some {γ : Type} {m : AList (fun _ : α => γ)} {key other : α} {value v : γ}
    (found : (mapInsert m key value).lookup other = some v) : m.lookup other = some v ∨ v = value := by
  by_cases same : other = key
  · subst same
    rw [lookup_mapInsert_self] at found
    cases old : m.lookup other with
    | none => rw [old, Option.getD_none] at found; exact .inr (Option.some_inj.mp found).symm
    | some w => rw [old, Option.getD_some] at found; exact .inl found
  · exact .inl (by rwa [lookup_mapInsert_ne same] at found)

theorem mapAt_eq_ok {m : AList β} {key : α} {value : β key} :
    mapAt m key = .ok value ↔ m.lookup key = some value := by
  unfold mapAt
  split <;> simp_all

/-- One step of a computation that may throw, peeled off. -/
theorem bind_eq_ok {γ δ : Type} {x : Except String γ} {f : γ → Except String δ} {r : δ} :
    x >>= f = .ok r ↔ ∃ a, x = .ok a ∧ f a = .ok r := by
  cases x <;> simp [bind, Except.bind]

@[simp] theorem ok_bind {γ δ : Type} (a : γ) (f : γ → Except String δ) :
    (Except.ok a : Except String γ) >>= f = f a := rfl

theorem mem_of_lookup_eq_some {m : AList β} {key : α} {value : β key} (found : m.lookup key = some value) :
    key ∈ m :=
  AList.lookup_isSome.mp (by rw [found]; rfl)

/-- `std::map::erase` only removes: a binding after it was there before. -/
theorem lookup_of_lookup_erase {m : AList β} {key other : α} {value : β other}
    (found : (m.erase key).lookup other = some value) : m.lookup other = some value := by
  by_cases same : other = key
  · subst same
    rw [AList.lookup_erase] at found
    cases found
  · rwa [AList.lookup_erase_ne same] at found

end Porla
