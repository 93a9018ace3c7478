/-!
# Results that may fail

When a sequence of steps that may fail succeeds, every step of it did.
-/

namespace OrpcWire

variable {ε α β : Type}

theorem bind_eq_ok_iff {first : Except ε α} {next : α → Except ε β} {b : β} :
    (first >>= next) = .ok b ↔ ∃ a, first = .ok a ∧ next a = .ok b := by
  cases first <;> simp [bind, Except.bind]

theorem bind_eq_error_iff {first : Except ε α} {next : α → Except ε β} {error : ε} :
    (first >>= next) = .error error ↔ first = .error error ∨ ∃ a,
      first = .ok a ∧ next a = .error error := by
  cases first <;> simp [bind, Except.bind]

theorem map_eq_ok_iff {result : Except ε α} {f : α → β} {b : β} :
    result.map f = .ok b ↔ ∃ a, result = .ok a ∧ f a = b := by
  cases result <;> simp [Except.map]

theorem map_eq_error_iff {result : Except ε α} {f : α → β} {error : ε} :
    result.map f = .error error ↔ result = .error error := by
  cases result <;> simp [Except.map]

theorem mapError_eq_ok_iff {ε' : Type} {result : Except ε α} {f : ε → ε'} {a : α} :
    result.mapError f = .ok a ↔ result = .ok a := by
  constructor
  · intro h
    cases result <;> cases h
    rfl
  · rintro rfl
    rfl

theorem mapError_eq_error_iff {ε' : Type} {result : Except ε α} {f : ε → ε'} {error : ε'} :
    result.mapError f = .error error ↔ ∃ error', result = .error error' ∧ f error' = error := by
  constructor
  · intro h
    cases result <;> cases h
    exact ⟨_, rfl, rfl⟩
  · rintro ⟨error', rfl, rfl⟩
    rfl

theorem mapM_cons_eq_ok_iff {f : α → Except ε β} {a : α} {as : List α} {bs : List β} :
    (a :: as).mapM f = .ok bs ↔ ∃ b rest, f a = .ok b ∧ as.mapM f = .ok rest ∧ bs = b :: rest := by
  rw [List.mapM_cons, bind_eq_ok_iff]
  constructor
  · rintro ⟨b, hb, h⟩
    obtain ⟨rest, hrest, h⟩ := bind_eq_ok_iff.1 h
    cases h
    exact ⟨b, rest, hb, hrest, rfl⟩
  · rintro ⟨b, rest, hb, hrest, rfl⟩
    exact ⟨b, hb, bind_eq_ok_iff.2 ⟨rest, hrest, rfl⟩⟩

theorem mapM_eq_ok_iff {f : α → Except ε β} {P : α → Prop} {g : α → β}
    (h : ∀ a b, f a = .ok b ↔ P a ∧ b = g a) {as : List α} {bs : List β} :
    as.mapM f = .ok bs ↔ (∀ a ∈ as, P a) ∧ bs = as.map g := by
  induction as generalizing bs with
  | nil =>
    constructor
    · intro hnil
      cases hnil
      exact ⟨by simp, rfl⟩
    · rintro ⟨_, rfl⟩
      rfl
  | cons a as ih =>
    rw [mapM_cons_eq_ok_iff, List.forall_mem_cons, List.map_cons]
    constructor
    · rintro ⟨b, rest, hb, hrest, rfl⟩
      obtain ⟨ha, rfl⟩ := (h a b).1 hb
      obtain ⟨has, rfl⟩ := ih.1 hrest
      exact ⟨⟨ha, has⟩, rfl⟩
    · rintro ⟨⟨ha, has⟩, rfl⟩
      exact ⟨g a, as.map g, (h a _).2 ⟨ha, rfl⟩, ih.2 ⟨has, rfl⟩, rfl⟩

theorem mapM_eq_pure {m : Type → Type} [Monad m] [LawfulMonad m] {f : α → m β} {g : α → β}
    {as : List α} (h : ∀ a ∈ as, f a = pure (g a)) : as.mapM f = pure (as.map g) := by
  induction as with
  | nil => rfl
  | cons a as ih =>
    obtain ⟨ha, has⟩ := List.forall_mem_cons.1 h
    rw [List.mapM_cons, ha, ih has, pure_bind, pure_bind, List.map_cons]

theorem length_of_mapM_eq_ok {f : α → Except ε β} {as : List α} {bs : List β}
    (h : as.mapM f = .ok bs) : bs.length = as.length := by
  induction as generalizing bs with
  | nil =>
    cases h
    rfl
  | cons a as ih =>
    obtain ⟨b, rest, _, hrest, rfl⟩ := mapM_cons_eq_ok_iff.1 h
    rw [List.length_cons, List.length_cons, ih hrest]

theorem forall_of_mapM_eq_ok {f : α → Except ε β} {as : List α} {bs : List β}
    (h : as.mapM f = .ok bs) : ∀ a ∈ as, ∃ b, f a = .ok b := by
  induction as generalizing bs with
  | nil => simp
  | cons a as ih =>
    obtain ⟨b, rest, hb, hrest, rfl⟩ := mapM_cons_eq_ok_iff.1 h
    exact List.forall_mem_cons.2 ⟨⟨b, hb⟩, ih hrest⟩

theorem exists_of_mem_mapM {f : α → Except ε β} {as : List α} {bs : List β}
    (h : as.mapM f = .ok bs) : ∀ b ∈ bs, ∃ a ∈ as, f a = .ok b := by
  induction as generalizing bs with
  | nil =>
    cases h
    simp
  | cons a as ih =>
    obtain ⟨b, rest, hb, hrest, rfl⟩ := mapM_cons_eq_ok_iff.1 h
    refine List.forall_mem_cons.2 ⟨⟨a, List.mem_cons_self, hb⟩, fun b' hmem => ?_⟩
    obtain ⟨a', hmem', ha'⟩ := ih hrest b' hmem
    exact ⟨a', List.mem_cons_of_mem _ hmem', ha'⟩

theorem exists_of_mapM_eq_error {f : α → Except ε β} {as : List α} {error : ε}
    (h : as.mapM f = .error error) : ∃ a ∈ as, f a = .error error := by
  induction as with
  | nil => cases h
  | cons a as ih =>
    rw [List.mapM_cons] at h
    rcases bind_eq_error_iff.1 h with ha | ⟨b, _, h⟩
    · exact ⟨a, List.mem_cons_self, ha⟩
    · rcases bind_eq_error_iff.1 h with has | ⟨bs, _, h⟩
      · obtain ⟨a', hmem, ha'⟩ := ih has
        exact ⟨a', List.mem_cons_of_mem _ hmem, ha'⟩
      · cases h

/-! ## which errors there may be -/

/-- Every error that the result may be has the property. -/
def FailsWith (P : ε → Prop) (result : Except ε α) : Prop :=
  ∀ error, result = .error error → P error

namespace FailsWith

variable {P Q : ε → Prop} {result : Except ε α}

theorem ok (a : α) : FailsWith P (.ok a : Except ε α) := by
  intro error heq
  cases heq

theorem error {error : ε} (h : P error) : FailsWith P (.error error : Except ε α) := by
  intro error' heq
  cases heq
  exact h

theorem imp (h : FailsWith P result) (himp : ∀ error, P error → Q error) : FailsWith Q result :=
  fun error heq => himp error (h error heq)

theorem bind {next : α → Except ε β} (h : FailsWith P result)
    (hnext : ∀ a, result = .ok a → FailsWith P (next a)) : FailsWith P (result >>= next) := by
  intro error heq
  rcases bind_eq_error_iff.1 heq with hresult | ⟨a, hresult, heq⟩
  · exact h error hresult
  · exact hnext a hresult error heq

theorem map (h : FailsWith P result) (f : α → β) : FailsWith P (result.map f) :=
  fun error heq => h error (map_eq_error_iff.1 heq)

theorem mapM {f : α → Except ε β} {as : List α} (h : ∀ a ∈ as, FailsWith P (f a)) :
    FailsWith P (as.mapM f) := by
  intro error heq
  obtain ⟨a, hmem, ha⟩ := exists_of_mapM_eq_error heq
  exact h a hmem error ha

end FailsWith

end OrpcWire
