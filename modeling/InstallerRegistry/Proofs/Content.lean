import InstallerRegistry.Entry
import Mathlib.Data.List.Nodup

/-!
# What entries leave in the registry

Entries are written one after another, so a place in the registry holds what the last entry for it
says (`content`). Two lists of entries have one content if nobody who looks only at the registry
can tell which of them was written.

A list that has been kept free of repetitions, by putting each entry where the one for its place
was (`put`), has the content of the entries it was made of (`content_foldl_put`).
-/

namespace InstallerRegistry

/-- A place in the registry. -/
structure Place where
  hive : Hive
  key : Text
  /-- The name of the value under the key. -/
  name : Text
deriving DecidableEq, Repr

/-- The place that an entry is written to. -/
def Entry.place (e : Entry) : Place :=
  ⟨e.hive, e.key, e.name⟩

/-- **What entries leave in the registry**: at each place the value of the last entry for it, and
nothing where there is none. -/
def content : List Entry → Place → Option (Option RegistryValue)
  | [], _ => none
  | e :: rest, p => (content rest p).or (if e.place = p then some e.value else none)

theorem content_append (a b : List Entry) (p : Place) :
    content (a ++ b) p = (content b p).or (content a p) := by
  induction a with
  | nil => rw [content, Option.or_none, List.nil_append]
  | cons e a ih => rw [List.cons_append, content, ih, content, Option.or_assoc]

/-- There is something at exactly the places that entries are for. -/
theorem content_ne_none_iff {l : List Entry} {p : Place} :
    content l p ≠ none ↔ ∃ e ∈ l, e.place = p := by
  induction l with
  | nil => simp [content]
  | cons e l ih =>
    rw [content, Ne, Option.or_eq_none_iff, not_and_or, ← Ne, ih]
    simp [or_comm]

/-- The content depends on places and values only. -/
theorem content_map {f : Entry → Entry} {l : List Entry}
    (h : ∀ e ∈ l, (f e).place = e.place ∧ (f e).value = e.value) :
    content (l.map f) = content l := by
  funext p
  induction l with
  | nil => rfl
  | cons e l ih =>
    obtain ⟨hplace, hvalue⟩ := h e List.mem_cons_self
    rw [List.map_cons, content, content, hplace, hvalue,
      ih fun e' he' => h e' (List.mem_cons_of_mem _ he')]

/-! ## Entries without repetitions -/

/-- The entries with one more, in the place of the one that was for its place, or at the end. -/
def put : List Entry → Entry → List Entry
  | [], e => [e]
  | e' :: rest, e => if e'.place = e.place then e :: rest else e' :: put rest e

theorem mem_of_mem_put {l : List Entry} {e x : Entry} (h : x ∈ put l e) : x ∈ l ∨ x = e := by
  induction l with
  | nil => exact .inr (List.mem_singleton.1 h)
  | cons e' l ih =>
    unfold put at h
    split at h
    next =>
      rcases List.mem_cons.1 h with h | h
      · exact .inr h
      · exact .inl (List.mem_cons_of_mem _ h)
    next =>
      rcases List.mem_cons.1 h with h | h
      · exact .inl (h ▸ List.mem_cons_self)
      · exact (ih h).imp_left (List.mem_cons_of_mem _)

theorem map_place_put (l : List Entry) (e : Entry) :
    (put l e).map Entry.place
      = if e.place ∈ l.map Entry.place then l.map Entry.place
        else l.map Entry.place ++ [e.place] := by
  induction l with
  | nil => rfl
  | cons e' l ih =>
    by_cases h : e'.place = e.place
    · simp [put, h]
    · rw [put, if_neg h, List.map_cons, ih, List.map_cons]
      by_cases h' : e.place ∈ l.map Entry.place
      · rw [if_pos h', if_pos (List.mem_cons_of_mem _ h')]
      · rw [if_neg h', if_neg (List.not_mem_cons_of_ne_of_not_mem (Ne.symm h) h')]
        rfl

theorem nodup_put {l : List Entry} (h : (l.map Entry.place).Nodup) (e : Entry) :
    ((put l e).map Entry.place).Nodup := by
  rw [map_place_put]
  split
  next => exact h
  next hnew => exact h.append (List.nodup_singleton _) (List.disjoint_singleton.2 hnew)

/-- Putting an entry leaves what writing it last leaves. -/
theorem content_put {l : List Entry} (h : (l.map Entry.place).Nodup) (e : Entry) :
    content (put l e) = content (l ++ [e]) := by
  funext p
  induction l with
  | nil => rfl
  | cons e' l ih =>
    obtain ⟨hnotin, hl⟩ := List.nodup_cons.1 h
    by_cases hplace : e'.place = e.place
    · rw [put, if_pos hplace, List.cons_append, content, content, content_append, hplace]
      by_cases hp : e.place = p
      · -- the places differ, so what was there came from the entry that is replaced
        have hnone : content l p = none := by
          by_contra hne
          obtain ⟨x, hx, rfl⟩ := content_ne_none_iff.1 hne
          exact hnotin (List.mem_map.2 ⟨x, hx, by rw [hplace, hp]⟩)
        simp [content, hnone, hp]
      · simp [content, hp]
    · rw [put, if_neg hplace, List.cons_append, content, content, ih hl]

/-- **Putting entries one after another** leaves what writing all of them leaves. -/
theorem content_foldl_put (entries : List Entry) {l : List Entry}
    (h : (l.map Entry.place).Nodup) :
    content (entries.foldl put l) = content (l ++ entries) := by
  induction entries generalizing l with
  | nil => rw [List.foldl_nil, List.append_nil]
  | cons e entries ih =>
    rw [List.foldl_cons, ih (nodup_put h e), ← List.singleton_append, ← List.append_assoc]
    funext p
    rw [content_append, content_append, content_put h e]

theorem mem_of_mem_foldl_put {entries l : List Entry} {x : Entry}
    (h : x ∈ entries.foldl put l) : x ∈ l ∨ x ∈ entries := by
  induction entries generalizing l with
  | nil => exact .inl h
  | cons e entries ih =>
    rcases ih h with h' | h'
    · rcases mem_of_mem_put h' with h'' | h''
      · exact .inl h''
      · exact .inr (h'' ▸ List.mem_cons_self)
    · exact .inr (List.mem_cons_of_mem _ h')

end InstallerRegistry
