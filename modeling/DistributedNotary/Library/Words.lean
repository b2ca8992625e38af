import Mathlib.Data.List.Basic

/-! Texts that are made of words with one separator between them. No word has a
separator in it, so that a text determines its words, and what is found in the
text is found in words that stand next to each other. -/
namespace DistributedNotary.Library

variable {α : Type*} {sep : α}

/-- The words with a separator between them. -/
def unwords (sep : α) (ws : List (List α)) : List α := [sep].intercalate ws

section Words

variable {a b u v w x : List α} {ws r : List (List α)}

@[simp] theorem unwords_nil : unwords sep [] = [] := rfl

@[simp] theorem unwords_singleton : unwords sep [w] = w := by
  simp [unwords]

@[simp] theorem unwords_cons_cons : unwords sep (a :: b :: ws) = a ++ sep :: unwords sep (b :: ws) := by
  simp [unwords, List.intercalate_cons_cons]

theorem unwords_cons_of_ne_nil (h : r ≠ []) : unwords sep (a :: r) = a ++ sep :: unwords sep r := by
  cases r with
  | nil => exact absurd rfl h
  | cons b r => exact unwords_cons_cons

/-- Words that are each put after a separator. -/
theorem append_flatMap_sep : w ++ ws.flatMap (sep :: ·) = unwords sep (w :: ws) := by
  induction ws generalizing w with
  | nil => simp
  | cons a ws ih => rw [unwords_cons_cons, ← ih, List.flatMap_cons, List.cons_append]

/-- A text that is not empty is split into its words again. -/
theorem splitOn_unwords [BEq α] [LawfulBEq α] (hws : ∀ c ∈ ws, sep ∉ c) (hne : ws ≠ []) :
    (unwords sep ws).splitOn sep = ws := List.splitOn_intercalate sep hws hne

/-- The first separator of a text divides it in one way. -/
theorem append_sep_inj {l l' r r' : List α} (hl : sep ∉ l) (hl' : sep ∉ l') (h : l ++ sep :: r = l' ++ sep :: r') :
    l = l' ∧ r = r' := by
  induction l generalizing l' with
  | nil =>
    cases l' with
    | nil => exact ⟨rfl, (List.cons.inj h).2⟩
    | cons c l' => exact absurd ((List.cons.inj h).1 ▸ List.mem_cons_self) hl'
  | cons c l ih =>
    cases l' with
    | nil => exact absurd ((List.cons.inj h).1 ▸ List.mem_cons_self) hl
    | cons c' l' =>
      obtain ⟨rfl, htail⟩ := List.cons.inj h
      obtain ⟨rfl, rfl⟩ := ih (fun hm => hl (List.mem_cons_of_mem _ hm))
        (fun hm => hl' (List.mem_cons_of_mem _ hm)) htail
      exact ⟨rfl, rfl⟩

/-- A text without a separator that begins a line of words begins the first of them. -/
theorem prefix_unwords_cons_iff (hv : sep ∉ v) : v <+: unwords sep (b :: r) ↔ v <+: b := by
  cases r with
  | nil => rw [unwords_singleton]
  | cons c r =>
    rw [unwords_cons_cons]
    constructor
    · rintro ⟨t, ht⟩
      rcases List.append_eq_append_iff.mp ht with ⟨z, hb, -⟩ | ⟨z, hz, hsep⟩
      · exact ⟨z, hb.symm⟩
      · cases z with
        | nil =>
          rw [List.append_nil] at hz
          exact ⟨[], by rw [List.append_nil, hz]⟩
        | cons d z =>
          obtain ⟨rfl, -⟩ := List.cons.inj hsep
          exact absurd (hz ▸ List.mem_append_right _ List.mem_cons_self) hv
    · exact fun h => h.trans (List.prefix_append ..)

/-- What begins with a word and a separator. -/
theorem append_sep_prefix_unwords_iff (hr : ∀ c ∈ r, sep ∉ c) (hw : sep ∉ w) :
    w ++ sep :: v <+: unwords sep r ↔ ∃ r', r = w :: r' ∧ r' ≠ [] ∧ v <+: unwords sep r' := by
  constructor
  · rintro ⟨t, ht⟩
    have hmem : sep ∈ unwords sep r := ht ▸ by simp
    cases r with
    | nil => exact absurd hmem List.not_mem_nil
    | cons a r =>
      cases r with
      | nil =>
        rw [unwords_singleton] at hmem
        exact absurd hmem (hr a List.mem_cons_self)
      | cons b r =>
        rw [unwords_cons_cons, List.append_assoc, List.cons_append] at ht
        obtain ⟨rfl, hrest⟩ := append_sep_inj hw (hr a List.mem_cons_self) ht
        exact ⟨b :: r, rfl, List.cons_ne_nil _ _, t, hrest⟩
  · rintro ⟨r', rfl, hne, t, ht⟩
    rw [unwords_cons_of_ne_nil hne, ← ht]
    exact ⟨t, by simp⟩

/-- What stands before a separator in a line of words ends a word, and what stands after it begins the line of the
words that follow. -/
theorem append_sep_infix_unwords_iff (hws : ∀ c ∈ ws, sep ∉ c) (hu : sep ∉ u) :
    u ++ sep :: x <:+: unwords sep ws ↔ ∃ l a r, ws = l ++ a :: r ∧ r ≠ [] ∧ u <:+ a ∧ x <+: unwords sep r := by
  constructor
  · rintro ⟨s, t, hst⟩
    induction ws generalizing s with
    | nil => simp at hst
    | cons a ws ih =>
      cases ws with
      | nil =>
        have hmem : sep ∈ unwords sep [a] := hst ▸ by simp
        rw [unwords_singleton] at hmem
        exact absurd hmem (hws a List.mem_cons_self)
      | cons b ws =>
        rw [unwords_cons_cons] at hst
        by_cases hs : sep ∈ s
        · obtain ⟨s₁, s₂, rfl, hs₁⟩ := List.eq_append_cons_of_mem hs
          simp only [List.append_assoc, List.cons_append] at hst
          obtain ⟨rfl, hrest⟩ := append_sep_inj hs₁ (hws a List.mem_cons_self) hst
          obtain ⟨l, a', r, heq, hfound⟩ := ih (fun c hc => hws c (List.mem_cons_of_mem _ hc)) s₂ (by simpa using hrest)
          exact ⟨s₁ :: l, a', r, by rw [heq, List.cons_append], hfound⟩
        · have hsu : sep ∉ s ++ u := by simp [hs, hu]
          have hst' : (s ++ u) ++ sep :: (x ++ t) = a ++ sep :: unwords sep (b :: ws) := by simpa using hst
          obtain ⟨rfl, hrest⟩ := append_sep_inj hsu (hws a List.mem_cons_self) hst'
          exact ⟨[], s ++ u, b :: ws, rfl, List.cons_ne_nil _ _, ⟨s, rfl⟩, t, hrest⟩
  · rintro ⟨l, a, r, rfl, hne, ⟨p, rfl⟩, t, ht⟩
    induction l with
    | nil =>
      rw [List.nil_append, unwords_cons_of_ne_nil hne, ← ht]
      exact ⟨p, t, by simp⟩
    | cons c l ih =>
      rw [List.cons_append, unwords_cons_of_ne_nil (by simp)]
      obtain ⟨s, t', hst⟩ := ih fun d hd => hws d (List.mem_cons_of_mem _ hd)
      exact ⟨c ++ sep :: s, t', by simp [← hst]⟩

/-- The end of a word and the begin of the next one. -/
theorem pair_infix_unwords_iff (hws : ∀ c ∈ ws, sep ∉ c) (hu : sep ∉ u) (hv : sep ∉ v) :
    u ++ sep :: v <:+: unwords sep ws ↔ ∃ l a b r, ws = l ++ a :: b :: r ∧ u <:+ a ∧ v <+: b := by
  rw [append_sep_infix_unwords_iff hws hu]
  constructor
  · rintro ⟨l, a, r, rfl, hne, hsuffix, hprefix⟩
    cases r with
    | nil => exact absurd rfl hne
    | cons b r => exact ⟨l, a, b, r, rfl, hsuffix, (prefix_unwords_cons_iff hv).mp hprefix⟩
  · rintro ⟨l, a, b, r, rfl, hsuffix, hprefix⟩
    exact ⟨l, a, b :: r, rfl, List.cons_ne_nil _ _, hsuffix, (prefix_unwords_cons_iff hv).mpr hprefix⟩

/-- A word that is not the first one, and the begin of the next one. -/
theorem word_infix_unwords_iff (hws : ∀ c ∈ ws, sep ∉ c) (hw : sep ∉ w) (hv : sep ∉ v) :
    sep :: (w ++ sep :: v) <:+: unwords sep ws ↔ ∃ l b r, ws = l ++ w :: b :: r ∧ l ≠ [] ∧ v <+: b := by
  rw [show sep :: (w ++ sep :: v) = [] ++ sep :: (w ++ sep :: v) from rfl,
    append_sep_infix_unwords_iff hws List.not_mem_nil]
  constructor
  · rintro ⟨l, a, r, rfl, -, -, hprefix⟩
    have hr : ∀ c ∈ r, sep ∉ c := fun c hc => hws c (by simp [hc])
    obtain ⟨r', rfl, hne, hprefix⟩ := (append_sep_prefix_unwords_iff hr hw).mp hprefix
    cases r' with
    | nil => exact absurd rfl hne
    | cons b r' => exact ⟨l ++ [a], b, r', by simp, by simp, (prefix_unwords_cons_iff hv).mp hprefix⟩
  · rintro ⟨l, b, r, rfl, hne, hprefix⟩
    obtain ⟨l', a, rfl⟩ := (List.eq_nil_or_concat l).resolve_left hne
    have hr : ∀ c ∈ w :: b :: r, sep ∉ c := fun c hc => hws c (List.mem_append_right _ hc)
    refine ⟨l', a, w :: b :: r, by simp, List.cons_ne_nil _ _, List.nil_suffix, ?_⟩
    exact (append_sep_prefix_unwords_iff hr hw).mpr
      ⟨b :: r, rfl, List.cons_ne_nil _ _, (prefix_unwords_cons_iff hv).mpr hprefix⟩

end Words

end DistributedNotary.Library
