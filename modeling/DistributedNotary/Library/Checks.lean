import Mathlib.Data.Int.Notation

/-! Computations in `Except`. One that succeeds has passed every step and every
check on the way to the result. `Ends` says what holds of the result of a
computation and what holds of its error, and goes through its steps in turn.
`ReturnsIff` says exactly when a computation has a result, and what holds of it. -/
namespace DistributedNotary.Library

section Checks

variable {ε α β : Type}

/-- The check `c`, which fails with `e`. -/
def ensure (c : Prop) [Decidable c] (e : ε) : Except ε Unit := if c then .ok () else .error e

@[simp] theorem ensure_eq_ok {c : Prop} [Decidable c] {e : ε} {u : Unit} : ensure c e = .ok u ↔ c := by
  unfold ensure
  by_cases hc : c <;> simp [hc]

theorem bind_eq_ok {x : Except ε α} {f : α → Except ε β} {b : β} :
    (x >>= f) = .ok b ↔ ∃ a, x = .ok a ∧ f a = .ok b := by
  cases x with
  | error e => simp [bind, Except.bind]
  | ok a => simp [bind, Except.bind]

theorem pure_eq_ok {a b : α} : (pure a : Except ε α) = .ok b ↔ a = b := by
  simp [pure, Except.pure]

/-- A check that is passed. -/
theorem ensure_then {c : Prop} [Decidable c] {e : ε} {a : α} (h : c) :
    (ensure c e >>= fun _ => pure a : Except ε α) = .ok a := by
  simp [ensure, h, bind, Except.bind, pure, Except.pure]

theorem map_eq_ok {x : Except ε α} {f : α → β} {b : β} : x.map f = .ok b ↔ ∃ a, x = .ok a ∧ f a = b := by
  cases x with
  | error e => simp [Except.map]
  | ok a => simp [Except.map]

theorem map_eq_error {x : Except ε α} {f : α → β} {e : ε} : x.map f = .error e ↔ x = .error e := by
  cases x with
  | error e => simp [Except.map]
  | ok a => simp [Except.map]

theorem mapError_eq_ok {δ : Type} {x : Except ε α} {f : ε → δ} {a : α} : x.mapError f = .ok a ↔ x = .ok a := by
  cases x with
  | error e =>
    constructor <;> intro h <;> cases h
  | ok a =>
    constructor <;> intro h <;> cases h <;> rfl

/-- What a list of lookups has found. -/
theorem exists_of_mapM_eq_some {g : α → Option β} {l : List α} {bs : List β} (h : l.mapM g = some bs) {b : β}
    (hb : b ∈ bs) : ∃ a ∈ l, g a = some b := by
  induction l generalizing bs with
  | nil =>
    obtain rfl := Option.some.inj h
    exact absurd hb List.not_mem_nil
  | cons a l ih =>
    rw [List.mapM_cons] at h
    obtain ⟨b', hb', h⟩ := Option.bind_eq_some_iff.mp h
    obtain ⟨bs', hbs', h⟩ := Option.bind_eq_some_iff.mp h
    obtain rfl := Option.some.inj h
    rcases List.mem_cons.mp hb with rfl | hb
    · exact ⟨a, List.mem_cons_self .., hb'⟩
    · obtain ⟨a', ha', h⟩ := ih hbs' hb
      exact ⟨a', List.mem_cons_of_mem _ ha', h⟩

/-- Lookups that all find something find what a filter keeps. -/
theorem filterMap_of_mapM_eq_some {g : α → Option β} {l : List α} {bs : List β} (h : l.mapM g = some bs) :
    l.filterMap g = bs ∧ ∀ a ∈ l, (g a).isSome = true := by
  induction l generalizing bs with
  | nil =>
    obtain rfl := Option.some.inj h
    simp
  | cons a l ih =>
    rw [List.mapM_cons] at h
    obtain ⟨b, hb, h⟩ := Option.bind_eq_some_iff.mp h
    obtain ⟨bs', hbs', h⟩ := Option.bind_eq_some_iff.mp h
    obtain rfl := Option.some.inj h
    obtain ⟨hfilter, hall⟩ := ih hbs'
    rw [List.filterMap_cons_some hb, hfilter]
    refine ⟨rfl, fun a' ha' => ?_⟩
    rcases List.mem_cons.mp ha' with rfl | ha'
    · rw [hb]
      rfl
    · exact hall a' ha'

/-- Lookups that all find something. -/
theorem exists_mapM_eq_some {g : α → Option β} {l : List α} (h : ∀ a ∈ l, (g a).isSome = true) :
    ∃ bs, l.mapM g = some bs := by
  induction l with
  | nil => exact ⟨[], rfl⟩
  | cons a l ih =>
    obtain ⟨b, hb⟩ := Option.isSome_iff_exists.mp (h a (List.mem_cons_self ..))
    obtain ⟨bs, hbs⟩ := ih fun a' ha' => h a' (List.mem_cons_of_mem _ ha')
    refine ⟨b :: bs, ?_⟩
    simp only [List.mapM_cons, hb, hbs, Option.bind_eq_bind, Option.bind_some, Option.pure_def]

/-- Lookups whose findings are known. -/
theorem mapM_eq_some_map {g : α → Option β} {f : α → β} {l : List α} (h : ∀ a ∈ l, g a = some (f a)) :
    l.mapM g = some (l.map f) := by
  induction l with
  | nil => rfl
  | cons a l ih =>
    have ha := h a (List.mem_cons_self ..)
    have hl := ih fun a' ha' => h a' (List.mem_cons_of_mem _ ha')
    simp only [List.mapM_cons, ha, hl, Option.bind_eq_bind, Option.bind_some, Option.pure_def, List.map_cons]

end Checks

section Ends

variable {ε α β : Type} {x : Except ε α} {f : α → Except ε β} {post mid : α → Prop} {bad bad' : ε → Prop}

/-- The computation has a result that satisfies `post`, or an error that satisfies `bad`. -/
def Ends (x : Except ε α) (post : α → Prop) (bad : ε → Prop) : Prop :=
  match x with
  | .ok a => post a
  | .error e => bad e

namespace Ends

theorem of_ok (h : Ends x post bad) {a : α} (hx : x = .ok a) : post a := by
  rw [hx] at h
  exact h

theorem of_error (h : Ends x post bad) {e : ε} (hx : x = .error e) : bad e := by
  rw [hx] at h
  exact h

theorem mono (h : Ends x mid bad) (hpost : ∀ a, mid a → post a) (hbad : ∀ e, bad e → bad' e) : Ends x post bad' := by
  cases x with
  | ok a => exact hpost a h
  | error e => exact hbad e h

/-- What the first step establishes is what the second one starts from. -/
theorem bind {post : β → Prop} (h : Ends x mid bad) (hf : ∀ a, x = .ok a → mid a → Ends (f a) post bad) :
    Ends (x >>= f) post bad := by
  cases x with
  | ok a => exact hf a rfl h
  | error e => exact h

end Ends

end Ends

section Returns

variable {ε α β : Type} {p q : Prop} {x : Except ε α} {f : α → Except ε β} {post mid : α → Prop}

/-- The computation has a result exactly when `p` holds, and the result then satisfies `post`. -/
structure ReturnsIff (p : Prop) (x : Except ε α) (post : α → Prop) : Prop where
  returns : p → ∃ a, x = .ok a ∧ post a
  only : ∀ a, x = .ok a → p

namespace ReturnsIff

theorem of_ok {a : α} (hx : x = .ok a) (hpost : post a) : ReturnsIff True x post :=
  ⟨fun _ => ⟨a, hx, hpost⟩, fun _ _ => trivial⟩

theorem congr (h : ReturnsIff p x post) (hpq : p ↔ q) : ReturnsIff q x post :=
  ⟨fun hq => h.returns (hpq.mpr hq), fun a ha => hpq.mp (h.only a ha)⟩

theorem mono (h : ReturnsIff p x mid) (hpost : ∀ a, p → mid a → post a) : ReturnsIff p x post where
  returns := fun hp => by
    obtain ⟨a, hx, ha⟩ := h.returns hp
    exact ⟨a, hx, hpost a hp ha⟩
  only := h.only

theorem post_of (h : ReturnsIff p x post) {a : α} (hx : x = .ok a) : post a := by
  obtain ⟨b, hb, hpost⟩ := h.returns (h.only a hx)
  rw [hx] at hb
  exact Except.ok.inj hb ▸ hpost

theorem iff (h : ReturnsIff p x post) : (∃ a, x = .ok a) ↔ p := by
  constructor
  · rintro ⟨a, ha⟩
    exact h.only a ha
  · intro hp
    obtain ⟨a, ha, _⟩ := h.returns hp
    exact ⟨a, ha⟩

/-- A computation whose result is known is equal to it. -/
theorem eq_ok {a : α} (h : ReturnsIff p x (· = a)) (hp : p) : x = .ok a := by
  obtain ⟨b, hx, rfl⟩ := h.returns hp
  exact hx

/-- Both steps have to return, the second one from any result of the first. -/
theorem bind {post : β → Prop} (h : ReturnsIff p x mid) (hf : ∀ a, p → mid a → ReturnsIff q (f a) post) :
    ReturnsIff (p ∧ q) (x >>= f) post where
  returns := fun hpq => by
    obtain ⟨a, hx, ha⟩ := h.returns hpq.1
    rw [hx]
    exact (hf a hpq.1 ha).returns hpq.2
  only := fun b hb => by
    obtain ⟨a, hx, hfa⟩ := bind_eq_ok.mp hb
    have hp := h.only a hx
    exact ⟨hp, (hf a hp (h.post_of hx)).only b hfa⟩

/-- A step that always returns. -/
theorem then_ok {post : β → Prop} {a : α} (hx : x = .ok a) (h : ReturnsIff q (f a) post) :
    ReturnsIff q (x >>= f) post := by
  rw [hx]
  exact h

/-- The result is used by a step that always returns. -/
theorem map {post : β → Prop} {g : α → β} (h : ReturnsIff p x mid) (hg : ∀ a, p → mid a → post (g a)) :
    ReturnsIff p (x >>= fun a => pure (g a)) post :=
  (h.bind fun a hp ha => of_ok rfl (hg a hp ha)).congr (and_iff_left trivial)

/-- One computation for every element of a list. -/
theorem mapM {p : α → Prop} {f : α → Except ε β} {g : α → β} {l : List α}
    (h : ∀ a ∈ l, ReturnsIff (p a) (f a) (· = g a)) : ReturnsIff (∀ a ∈ l, p a) (l.mapM f) (· = l.map g) := by
  induction l with
  | nil =>
    have hnil : ReturnsIff True ([].mapM f) (· = [].map g) := of_ok rfl rfl
    exact hnil.congr (iff_of_true trivial fun a ha => absurd ha List.not_mem_nil)
  | cons a l ih =>
    have hl := ih fun b hb => h b (List.mem_cons_of_mem _ hb)
    rw [List.mapM_cons]
    refine (((h a (List.mem_cons_self ..)).bind fun b _ hb => hl.map fun bs _ hbs => ?_).congr ?_)
    · rw [hb, hbs, List.map_cons]
    · exact List.forall_mem_cons.symm

end ReturnsIff

/-- A loop that asks for a value at every element has found all of them once it returns. -/
theorem forall_of_foldlM_eq_ok {γ : Type} {step : β → γ → α → Except ε β} {get : α → Except ε γ} {l : List α} {b b' : β}
    (h : l.foldlM (fun b a => do step b (← get a) a) b = .ok b') : ∀ a ∈ l, ∃ c, get a = .ok c := by
  induction l generalizing b with
  | nil => exact fun a ha => absurd ha List.not_mem_nil
  | cons a l ih =>
    rw [List.foldlM_cons] at h
    obtain ⟨b₁, h₁, h⟩ := bind_eq_ok.mp h
    obtain ⟨c, hc, _⟩ := bind_eq_ok.mp h₁
    exact List.forall_mem_cons.mpr ⟨⟨c, hc⟩, ih h⟩

end Returns

end DistributedNotary.Library
