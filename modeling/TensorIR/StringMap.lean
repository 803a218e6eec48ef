/-!
# Maps keyed by text, in key order

A `StringMap` is its list of entries in strictly increasing order of keys, so two maps with the same
entries are the same map, however they were filled. Keys are ordered by code points.

`get?_insert` says what a map holds after an insertion, and `ofList_eq_of_perm` that the order of
insertions does not show.
-/

namespace TensorIR

universe u

/-- A finite map from texts, listed in increasing order of keys. -/
structure StringMap (β : Type u) where
  toList : List (String × β)
  sorted : toList.Pairwise fun a b => a.1 < b.1
  deriving DecidableEq

namespace StringMap

variable {β : Type u}

/-- Put an entry in its place, in place of an entry with the same key. -/
def insertEntry (k : String) (v : β) : List (String × β) → List (String × β)
  | [] => [(k, v)]
  | e :: rest =>
    if k < e.1 then (k, v) :: e :: rest
    else if k = e.1 then (k, v) :: rest
    else e :: insertEntry k v rest

theorem mem_insertEntry {k : String} {v : β} {a : String × β} {l : List (String × β)}
    (h : a ∈ insertEntry k v l) : a = (k, v) ∨ a ∈ l := by
  induction l with
  | nil => simpa [insertEntry] using h
  | cons e rest ih =>
    rw [insertEntry] at h
    split at h
    · simpa using h
    · split at h
      · rcases List.mem_cons.1 h with h | h
        · exact .inl h
        · exact .inr (List.mem_cons_of_mem _ h)
      · rcases List.mem_cons.1 h with h | h
        · exact .inr (h ▸ List.mem_cons_self)
        · exact (ih h).imp id (List.mem_cons_of_mem _)

theorem lt_of_not_lt_of_ne {a b : String} (h : ¬a < b) (hne : a ≠ b) : b < a := by
  have hle : b ≤ a := String.not_lt.1 h
  refine Decidable.byContradiction fun hn => hne ?_
  exact String.le_antisymm (String.not_lt.1 hn) hle

theorem sorted_insertEntry {k : String} {v : β} {l : List (String × β)}
    (h : l.Pairwise fun a b => a.1 < b.1) :
    (insertEntry k v l).Pairwise fun a b => a.1 < b.1 := by
  induction l with
  | nil => simp [insertEntry]
  | cons e rest ih =>
    obtain ⟨he, hrest⟩ := List.pairwise_cons.1 h
    rw [insertEntry]
    split
    case isTrue hlt =>
      refine List.pairwise_cons.2 ⟨fun a ha => ?_, h⟩
      rcases List.mem_cons.1 ha with rfl | ha
      · exact hlt
      · exact String.lt_trans hlt (he a ha)
    case isFalse hlt =>
      split
      case isTrue heq => exact List.pairwise_cons.2 ⟨fun a ha => heq ▸ he a ha, hrest⟩
      case isFalse hne =>
        refine List.pairwise_cons.2 ⟨fun a ha => ?_, ih hrest⟩
        rcases mem_insertEntry ha with rfl | ha
        · exact lt_of_not_lt_of_ne hlt hne
        · exact he a ha

def empty : StringMap β := ⟨[], .nil⟩

instance : EmptyCollection (StringMap β) := ⟨empty⟩

instance : Inhabited (StringMap β) := ⟨empty⟩

/-- Hold `v` under `k`; a later insertion wins. -/
def insert (m : StringMap β) (k : String) (v : β) : StringMap β :=
  ⟨insertEntry k v m.toList, sorted_insertEntry m.sorted⟩

/-- Insert the entries in order, so that the last one for a key wins. -/
def ofList (entries : List (String × β)) : StringMap β :=
  entries.foldl (fun m e => m.insert e.1 e.2) empty

def get? (m : StringMap β) (k : String) : Option β :=
  m.toList.lookup k

def contains (m : StringMap β) (k : String) : Bool :=
  (m.get? k).isSome

/-- The keys, in increasing order. -/
def keys (m : StringMap β) : List String :=
  m.toList.map Prod.fst

def size (m : StringMap β) : Nat :=
  m.toList.length

def isEmpty (m : StringMap β) : Bool :=
  m.toList.isEmpty

theorem lookup_cons_eq_ite (k : String) (e : String × β) (l : List (String × β)) :
    (e :: l).lookup k = if k = e.1 then some e.2 else l.lookup k := by
  rw [List.lookup_cons]
  cases h : k == e.1 with
  | true => rw [if_pos (eq_of_beq h)]
  | false => rw [if_neg (beq_eq_false_iff_ne.1 h)]

theorem lookup_insertEntry (k k' : String) (v : β) (l : List (String × β)) :
    (insertEntry k v l).lookup k' = if k' = k then some v else l.lookup k' := by
  induction l with
  | nil => simp [insertEntry, lookup_cons_eq_ite]
  | cons e rest ih =>
    rw [insertEntry]
    split
    · rw [lookup_cons_eq_ite]
    · split
      case isTrue heq => by_cases h : k' = k <;> simp [lookup_cons_eq_ite, ← heq, h]
      case isFalse hne =>
        rw [lookup_cons_eq_ite, ih, lookup_cons_eq_ite]
        by_cases h : k' = e.1
        · simp [h, Ne.symm hne]
        · simp [h]

@[simp] theorem get?_empty (k : String) : (empty : StringMap β).get? k = none := rfl

/-- An insertion changes what is held under its own key and nothing else. -/
@[simp] theorem get?_insert (m : StringMap β) (k k' : String) (v : β) :
    (m.insert k v).get? k' = if k' = k then some v else m.get? k' :=
  lookup_insertEntry k k' v m.toList

theorem insertEntry_of_lookup {k : String} {v : β} {l : List (String × β)}
    (hl : l.Pairwise fun a b => a.1 < b.1) (h : l.lookup k = some v) : insertEntry k v l = l := by
  induction l with
  | nil => cases h
  | cons e rest ih =>
    obtain ⟨he, hrest⟩ := List.pairwise_cons.1 hl
    rw [lookup_cons_eq_ite] at h
    rw [insertEntry]
    split at h
    case isTrue hk =>
      cases h
      rw [if_neg (hk ▸ String.lt_irrefl k), if_pos hk, hk]
    case isFalse hk =>
      -- the entry stands further behind
      obtain ⟨front, back, hmem, -⟩ := List.lookup_eq_some_iff.1 h
      have hlt : e.1 < k := he (k, v) (by simp [hmem])
      rw [if_neg (String.lt_asymm hlt), if_neg hk, ih hrest h]

/-- Nothing changes if what is inserted is there. -/
theorem insert_of_get? {m : StringMap β} {k : String} {v : β} (h : m.get? k = some v) :
    m.insert k v = m := by
  obtain ⟨l, hl⟩ := m
  simp only [insert, insertEntry_of_lookup hl h]

theorem perm_insertEntry {k : String} {v : β} {l : List (String × β)} (h : ∀ e ∈ l, e.1 ≠ k) :
    (insertEntry k v l).Perm ((k, v) :: l) := by
  induction l with
  | nil => exact .refl _
  | cons e rest ih =>
    obtain ⟨he, hrest⟩ := List.forall_mem_cons.1 h
    rw [insertEntry]
    split
    · exact .refl _
    · rw [if_neg (Ne.symm he)]
      exact ((ih hrest).cons e).trans (.swap ..)

theorem perm_foldl_insert {entries : List (String × β)} {m : StringMap β}
    (h : ((entries ++ m.toList).map Prod.fst).Nodup) :
    (entries.foldl (fun m e => m.insert e.1 e.2) m).toList.Perm (entries ++ m.toList) := by
  induction entries generalizing m with
  | nil => exact .refl _
  | cons e entries ih =>
    have hnew : ∀ a ∈ m.toList, a.1 ≠ e.1 := by
      intro a ha heq
      rw [List.cons_append, List.map_cons, List.nodup_cons] at h
      exact h.1 (heq ▸ List.mem_map_of_mem (List.mem_append_right _ ha))
    have hperm : (entries ++ (m.insert e.1 e.2).toList).Perm (e :: entries ++ m.toList) :=
      ((perm_insertEntry hnew).append_left entries).trans List.perm_middle
    exact (ih ((hperm.map Prod.fst).nodup_iff.2 h)).trans hperm

/-- A map is what it holds, in whichever order it was filled. -/
theorem ofList_eq_of_perm {entries : List (String × β)} {m : StringMap β}
    (h : entries.Perm m.toList) : ofList entries = m := by
  have hkeys : (m.toList.map Prod.fst).Nodup := by
    refine List.pairwise_map.2 (m.sorted.imp ?_)
    intro a b hlt heq
    exact String.lt_irrefl b.1 (heq ▸ hlt)
  have hnodup : ((entries ++ (empty : StringMap β).toList).map Prod.fst).Nodup := by
    rw [empty, List.append_nil]
    exact (h.map Prod.fst).nodup_iff.2 hkeys
  have hperm : (ofList entries).toList.Perm m.toList := by
    have hperm := perm_foldl_insert hnodup
    rw [empty, List.append_nil] at hperm
    exact hperm.trans h
  have hlist : (ofList entries).toList = m.toList :=
    hperm.eq_of_pairwise (fun a b _ _ hab hba => absurd hba (String.lt_asymm hab))
      (ofList entries).sorted m.sorted
  generalize ofList entries = m' at hlist
  cases m
  cases m'
  cases hlist
  rfl

end StringMap

end TensorIR
