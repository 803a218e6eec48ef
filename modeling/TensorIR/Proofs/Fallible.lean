import Mathlib.Data.List.Forall2

/-!
# Computations that may fail

When a computation in `Except` succeeds, and with what. To put the errors of a program into other
words is to do so in each of its steps (`mapError_bind`). A computation ensures a predicate if its
result satisfies it whenever there is one, and two computations agree on a relation if it holds
between their results whenever both succeed; to show it for programs, follow their steps
(`Ensures.bind`, `Agree.bind`).
-/

namespace TensorIR.Fallible

variable {ε α β : Type}

/-- A computation that goes on succeeds exactly if both of its parts do. -/
theorem bind_eq_ok_iff {x : Except ε α} {k : α → Except ε β} {b : β} :
    x >>= k = .ok b ↔ ∃ a, x = .ok a ∧ k a = .ok b := by
  cases x with
  | error e => simp [bind, Except.bind]
  | ok a => simp [bind, Except.bind]

/-- A computation that goes on fails if its first part does, or the second after it. -/
theorem bind_eq_error_iff {x : Except ε α} {k : α → Except ε β} {e : ε} :
    x >>= k = .error e ↔ x = .error e ∨ ∃ a, x = .ok a ∧ k a = .error e := by
  cases x with
  | error e' => simp [bind, Except.bind]
  | ok a => simp [bind, Except.bind]

theorem map_eq_ok_iff {x : Except ε α} {k : α → β} {b : β} :
    x.map k = .ok b ↔ ∃ a, x = .ok a ∧ k a = b := by
  cases x with
  | error e => simp [Except.map]
  | ok a => simp [Except.map]

theorem map_eq_error_iff {x : Except ε α} {k : α → β} {e : ε} :
    x.map k = .error e ↔ x = .error e := by
  cases x with
  | error e' => simp [Except.map]
  | ok a => simp [Except.map]

theorem mapError_eq_ok_iff {ε' : Type} {x : Except ε α} {k : ε → ε'} {a : α} :
    x.mapError k = .ok a ↔ x = .ok a := by
  cases x with
  | error e => simp [Except.mapError]
  | ok a => simp [Except.mapError]

theorem mapError_ok {ε' : Type} (a : α) (l : ε → ε') :
    (.ok a : Except ε α).mapError l = .ok a := rfl

theorem mapError_pure {ε' : Type} (a : α) (l : ε → ε') :
    (pure a : Except ε α).mapError l = pure a := rfl

theorem mapError_ite {ε' : Type} (p : Prop) [Decidable p] (x y : Except ε α) (l : ε → ε') :
    (if p then x else y).mapError l = if p then x.mapError l else y.mapError l :=
  apply_ite ..

theorem mapError_map {ε' : Type} (x : Except ε α) (k : α → β) (l : ε → ε') :
    (x.map k).mapError l = (x.mapError l).map k := by
  cases x <;> rfl

theorem mapError_mapError {ε' ε'' : Type} (x : Except ε α) (k : ε → ε') (l : ε' → ε'') :
    (x.mapError k).mapError l = x.mapError fun e => l (k e) := by
  cases x <;> rfl

theorem mapError_bind {ε' : Type} (x : Except ε α) (k : α → Except ε β) (l : ε → ε') :
    (x >>= k).mapError l = x.mapError l >>= fun a => (k a).mapError l := by
  cases x <;> rfl

theorem map_bind {γ : Type} (x : Except ε α) (k : α → Except ε β) (l : β → γ) :
    (x >>= k).map l = x >>= fun a => (k a).map l := by
  cases x <;> rfl

theorem mapError_mapM {ε' : Type} (k : α → Except ε β) (as : List α) (l : ε → ε') :
    (as.mapM k).mapError l = as.mapM fun a => (k a).mapError l := by
  induction as with
  | nil => rfl
  | cons a as ih =>
    simp only [List.mapM_cons, mapError_bind, ih]
    rfl

/-- A computation fails if it does not succeed. -/
theorem exists_error_iff {x : Except ε α} : (∃ e, x = .error e) ↔ ¬∃ a, x = .ok a := by
  cases x <;> simp

theorem toOption_eq_some_iff {x : Except ε α} {a : α} : x.toOption = some a ↔ x = .ok a := by
  cases x <;> simp [Except.toOption]

theorem eq_ok_of_toOption_eq {ε' : Type} {x : Except ε α} {y : Except ε' α} {a : α}
    (h : x.toOption = y.toOption) (hx : x = .ok a) : y = .ok a := by
  rw [hx] at h
  cases y with
  | error e => cases h
  | ok b =>
    cases h
    rfl

/-- A check of all members of a list passes if it passes on each. -/
theorem forM_eq_ok_iff {check : α → Except ε Unit} {l : List α} :
    l.forM check = .ok () ↔ ∀ a ∈ l, check a = .ok () := by
  induction l with
  | nil => simp [List.forM, pure, Except.pure]
  | cons a l ih =>
    rw [List.forall_mem_cons]
    change check a >>= (fun _ => l.forM check) = .ok () ↔ _
    rw [bind_eq_ok_iff]
    constructor
    · intro h
      obtain ⟨u, ha, hl⟩ := h
      exact ⟨ha, ih.1 hl⟩
    · intro h
      obtain ⟨ha, hl⟩ := h
      exact ⟨(), ha, ih.2 hl⟩

/-- A check of all members of a list fails at one of them. -/
theorem exists_of_forM_eq_error {check : α → Except ε Unit} {l : List α} {e : ε}
    (h : l.forM check = .error e) : ∃ a ∈ l, check a = .error e := by
  induction l with
  | nil => cases h
  | cons a l ih =>
    rcases bind_eq_error_iff.1 h with ha | ⟨u, -, hl⟩
    · exact ⟨a, List.mem_cons_self, ha⟩
    · obtain ⟨a', ha', he⟩ := ih hl
      exact ⟨a', .tail _ ha', he⟩

/-- Checks that agree member by member agree. -/
theorem forM_map_congr {check : β → Except ε Unit} {check' : α → Except ε Unit} {k : α → β}
    {l : List α} (h : ∀ a ∈ l, check (k a) = check' a) :
    (l.map k).forM check = l.forM check' := by
  induction l with
  | nil => rfl
  | cons a l ih =>
    rw [List.forall_mem_cons] at h
    change (check (k a) >>= fun _ => (l.map k).forM check) = check' a >>= fun _ => l.forM check'
    rw [h.1, ih h.2]

theorem mapM_eq_ok_iff {k : α → Except ε β} {l : List α} {r : List β} :
    l.mapM k = .ok r ↔ List.Forall₂ (fun a b => k a = .ok b) l r := by
  induction l generalizing r with
  | nil => simp [pure, Except.pure, eq_comm]
  | cons a l ih =>
    rw [List.mapM_cons, bind_eq_ok_iff]
    constructor
    · intro hx
      obtain ⟨b, hb, hrest⟩ := hx
      obtain ⟨bs, hbs, hpure⟩ := bind_eq_ok_iff.1 hrest
      cases hpure
      exact .cons hb (ih.1 hbs)
    · intro h
      cases h with
      | cons hb hbs => exact ⟨_, hb, bind_eq_ok_iff.2 ⟨_, ih.2 hbs, rfl⟩⟩

/-- What a fold keeps at every step holds of all that was folded. The statement `P` is about the
members so far and what has been made of them. -/
theorem foldlM_induct {step : β → α → Except ε β} {P : List α → β → Prop} {l : List α} {b b' : β}
    (hstep : ∀ pre a post b b', l = pre ++ a :: post → P pre b → step b a = .ok b' →
      P (pre ++ [a]) b')
    (h : l.foldlM step b = .ok b') (hnil : P [] b) : P l b' := by
  have hsuffix : ∀ pre post b, l = pre ++ post → P pre b → post.foldlM step b = .ok b' →
      P l b' := by
    intro pre post
    induction post generalizing pre with
    | nil =>
      intro b hl hb h
      cases h
      rwa [hl, List.append_nil]
    | cons a post ih =>
      intro b hl hb h
      rw [List.foldlM_cons] at h
      obtain ⟨b₁, hb₁, h⟩ := bind_eq_ok_iff.1 h
      exact ih (pre ++ [a]) b₁ (by simp [hl]) (hstep pre a post b b₁ hl hb hb₁) h
  exact hsuffix [] l b rfl hnil h

/-- A fold whose steps cannot fail on the members of the list succeeds. -/
theorem exists_foldlM {step : β → α → Except ε β} {l : List α} {b : β}
    (hstep : ∀ b, ∀ a ∈ l, ∃ b', step b a = .ok b') : ∃ b', l.foldlM step b = .ok b' := by
  induction l generalizing b with
  | nil => exact ⟨b, rfl⟩
  | cons a l ih =>
    obtain ⟨b₁, hb₁⟩ := hstep b a List.mem_cons_self
    obtain ⟨b', hb'⟩ := ih (b := b₁) fun b a ha => hstep b a (.tail _ ha)
    exact ⟨b', by rw [List.foldlM_cons, bind_eq_ok_iff]; exact ⟨b₁, hb₁, hb'⟩⟩

/-- Two folds whose steps keep a relation arrive at related results. -/
theorem exists_foldlM_map {α' β' : Type} {R : β → β' → Prop} {step : β → α → Except ε β}
    {step' : β' → α' → Except ε β'} {k : α → α'} {l : List α} {b r : β} {b' : β'}
    (hstep : ∀ a ∈ l, ∀ b b' r, R b b' → step b a = .ok r → ∃ r', step' b' (k a) = .ok r' ∧ R r r')
    (h : l.foldlM step b = .ok r) (hb : R b b') :
    ∃ r', (l.map k).foldlM step' b' = .ok r' ∧ R r r' := by
  induction l generalizing b b' with
  | nil =>
    cases h
    exact ⟨b', rfl, hb⟩
  | cons a l ih =>
    rw [List.foldlM_cons] at h
    obtain ⟨b₁, hb₁, h⟩ := bind_eq_ok_iff.1 h
    obtain ⟨b₁', hb₁', hR⟩ := hstep a List.mem_cons_self b b' b₁ hb hb₁
    obtain ⟨r', hr', hR'⟩ := ih (fun a ha => hstep a (.tail _ ha)) h hR
    refine ⟨r', ?_, hR'⟩
    rw [List.map_cons, List.foldlM_cons]
    exact bind_eq_ok_iff.2 ⟨b₁', hb₁', hr'⟩

/-! ## What results satisfy -/

section Ensures

variable {P : α → Prop} {Q : β → Prop}

/-- The result satisfies the predicate if there is one. -/
def Ensures (P : α → Prop) (x : Except ε α) : Prop :=
  ∀ a, x = .ok a → P a

theorem Ensures.ok {a : α} (h : P a) : Ensures P (.ok a : Except ε α) := by
  rintro _ ⟨⟩
  exact h

theorem Ensures.error {e : ε} : Ensures P (.error e : Except ε α) := by
  rintro _ ⟨⟩

theorem Ensures.bind {x : Except ε α} {k : α → Except ε β} (h : Ensures P x)
    (hk : ∀ a, P a → Ensures Q (k a)) : Ensures Q (x >>= k) := by
  intro b hb
  obtain ⟨a, ha, hb⟩ := bind_eq_ok_iff.1 hb
  exact hk a (h a ha) b hb

/-- Nothing is needed of what has been computed so far. -/
theorem Ensures.bind_any {x : Except ε α} {k : α → Except ε β} (hk : ∀ a, Ensures Q (k a)) :
    Ensures Q (x >>= k) :=
  Ensures.bind (P := fun _ => True) (fun _ _ => trivial) fun a _ => hk a

theorem Ensures.map {x : Except ε α} {k : α → β} (h : Ensures P x) (hk : ∀ a, P a → Q (k a)) :
    Ensures Q (x.map k) := by
  intro b hb
  obtain ⟨a, ha, rfl⟩ := map_eq_ok_iff.1 hb
  exact hk a (h a ha)

theorem Ensures.mapError {δ : Type} {x : Except ε α} {k : ε → δ} (h : Ensures P x) :
    Ensures P (x.mapError k) :=
  fun a ha => h a (mapError_eq_ok_iff.1 ha)

theorem Ensures.mapM {k : α → Except ε β} {l : List α} (h : ∀ a ∈ l, Ensures Q (k a)) :
    Ensures (fun bs => ∀ b ∈ bs, Q b) (l.mapM k) := by
  induction l with
  | nil => exact .ok (by simp)
  | cons a l ih =>
    rw [List.forall_mem_cons] at h
    rw [List.mapM_cons]
    refine h.1.bind fun b hb => (ih h.2).bind fun bs hbs => ?_
    exact .ok (List.forall_mem_cons.2 ⟨hb, hbs⟩)

end Ensures

/-! ## Agreement -/

section Agree

variable {ε' α' β' : Type} {R : β → β' → Prop} {S : α → α' → Prop}

/-- The results are related if there are any. -/
def Agree (R : α → β → Prop) (x : Except ε α) (y : Except ε' β) : Prop :=
  ∀ a b, x = .ok a → y = .ok b → R a b

theorem Agree.ok {b : β} {b' : β'} (h : R b b') :
    Agree R (.ok b : Except ε β) (.ok b' : Except ε' β') := by
  rintro _ _ ⟨⟩ ⟨⟩
  exact h

theorem Agree.error_left {e : ε} {y : Except ε' β'} : Agree R (.error e : Except ε β) y := by
  rintro _ _ ⟨⟩

theorem Agree.error_right {x : Except ε β} {e : ε'} : Agree R x (.error e : Except ε' β') := by
  rintro _ _ _ ⟨⟩

/-- A computation agrees with itself. -/
theorem Agree.self (x : Except ε α) : Agree Eq x x := by
  intro a b ha hb
  rw [ha] at hb
  cases hb
  rfl

theorem Agree.bind {x : Except ε α} {y : Except ε' α'} {k : α → Except ε β}
    {l : α' → Except ε' β'} (h : Agree S x y) (hk : ∀ a a', S a a' → Agree R (k a) (l a')) :
    Agree R (x >>= k) (y >>= l) := by
  intro b b' hb hb'
  obtain ⟨a, ha, hb⟩ := bind_eq_ok_iff.1 hb
  obtain ⟨a', ha', hb'⟩ := bind_eq_ok_iff.1 hb'
  exact hk a a' (h a a' ha ha') b b' hb hb'

/-- Both go on from the same computation. -/
theorem Agree.bind_self {x : Except ε α} {k : α → Except ε β} {l : α → Except ε β'}
    (hk : ∀ a, Agree R (k a) (l a)) : Agree R (x >>= k) (x >>= l) := by
  refine (Agree.self x).bind fun a a' h => ?_
  subst h
  exact hk a

/-- Nothing is needed of what has been computed so far. -/
theorem Agree.bind_any {x : Except ε α} {y : Except ε' α'} {k : α → Except ε β}
    {l : α' → Except ε' β'} (hk : ∀ a a', Agree R (k a) (l a')) :
    Agree R (x >>= k) (y >>= l) :=
  Agree.bind (S := fun _ _ => True) (fun _ _ _ _ => trivial) fun a a' _ => hk a a'

theorem Agree.mapError {δ δ' : Type} {x : Except ε β} {y : Except ε' β'} {k : ε → δ}
    {l : ε' → δ'} (h : Agree R x y) : Agree R (x.mapError k) (y.mapError l) := by
  intro b b' hb hb'
  exact h b b' (mapError_eq_ok_iff.1 hb) (mapError_eq_ok_iff.1 hb')

theorem Agree.mapM {k : α → Except ε β} {l : α → Except ε' β'}
    (h : ∀ a, Agree R (k a) (l a)) (as : List α) :
    Agree (List.Forall₂ R) (as.mapM k) (as.mapM l) := by
  induction as with
  | nil => exact .ok .nil
  | cons a as ih =>
    rw [List.mapM_cons, List.mapM_cons]
    refine (h a).bind fun b b' hb => ih.bind fun bs bs' hbs => ?_
    exact .ok (.cons hb hbs)

end Agree

end TensorIR.Fallible
