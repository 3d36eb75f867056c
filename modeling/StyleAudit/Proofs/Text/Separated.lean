import Mathlib.Data.List.Basic
import Mathlib.Data.List.TakeWhile

/-!
# Texts with separators

What is written one after the other can be told apart again where a separator does not occur in
what it separates. These lemmas say so for one cut, at the first or the last separator or behind a
run of values that are alike, and for a list of texts with separators between them.
-/

namespace StyleAudit

section Separators

variable {α : Type} {x : α} {front front' back back' : List α}

/-- There is one way to cut a list where a value stands first. -/
theorem eq_of_cut_first (hfront : x ∉ front) (hfront' : x ∉ front')
    (h : front ++ x :: back = front' ++ x :: back') : front = front' ∧ back = back' := by
  induction front generalizing front' with
  | nil =>
    cases front' with
    | nil => exact ⟨rfl, (List.cons.inj h).2⟩
    | cons c front' => exact absurd (List.cons.inj h).1 (List.ne_of_not_mem_cons hfront')
  | cons c front ih =>
    cases front' with
    | nil => exact absurd (List.cons.inj h).1.symm (List.ne_of_not_mem_cons hfront)
    | cons c' front' =>
      obtain ⟨rfl, hrest⟩ := List.cons.inj h
      obtain ⟨rfl, hback⟩ := ih (List.not_mem_of_not_mem_cons hfront)
        (List.not_mem_of_not_mem_cons hfront') hrest
      exact ⟨rfl, hback⟩

/-- There is one way to cut a list where a value stands last. -/
theorem eq_of_cut_last (hback : x ∉ back) (hback' : x ∉ back')
    (h : front ++ x :: back = front' ++ x :: back') : front = front' ∧ back = back' := by
  have hreverse := congrArg List.reverse h
  simp only [List.reverse_append, List.reverse_cons, List.append_assoc,
    List.singleton_append] at hreverse
  have hcut := eq_of_cut_first (by simpa using hback) (by simpa using hback') hreverse
  exact ⟨List.reverse_injective hcut.2, List.reverse_injective hcut.1⟩

/-- There is one way to cut a list behind a run of values that are alike. -/
theorem eq_of_cut_run {p : α → Prop} [DecidablePred p] (hfront : ∀ a ∈ front, p a)
    (hfront' : ∀ a ∈ front', p a) (hback : ∀ a ∈ back.head?, ¬ p a)
    (hback' : ∀ a ∈ back'.head?, ¬ p a) (h : front ++ back = front' ++ back') :
    front = front' ∧ back = back' := by
  have htake {front back : List α} (hfront : ∀ a ∈ front, p a) (hback : ∀ a ∈ back.head?, ¬ p a) :
      (front ++ back).takeWhile (p ·) = front := by
    rw [List.takeWhile_append_of_pos fun a ha => decide_eq_true (hfront a ha)]
    cases back with
    | nil => simp
    | cons a back => simp [hback a rfl]
  have hsame : front = front' := by rw [← htake hfront hback, h, htake hfront' hback']
  subst hsame
  exact ⟨rfl, List.append_cancel_left h⟩

/-- A list of texts is known from the texts with separators between them, if none of them is empty
or has the character in it that a separator starts with. -/
theorem intercalate_inj {more : List α} {texts texts' : List (List α)}
    (h : ∀ text ∈ texts, text ≠ [] ∧ x ∉ text) (h' : ∀ text ∈ texts', text ≠ [] ∧ x ∉ text)
    (heq : (x :: more).intercalate texts = (x :: more).intercalate texts') : texts = texts' := by
  -- what stands in front of the first separator is one of the texts
  have hsplit {text : List α} {others : List (List α)} (hne : others ≠ []) :
      (x :: more).intercalate (text :: others)
        = text ++ x :: (more ++ (x :: more).intercalate others) := by
    obtain ⟨next, rest, rfl⟩ := List.exists_cons_of_ne_nil hne
    simp [List.intercalate_cons_cons]
  induction texts generalizing texts' with
  | nil =>
    cases texts' with
    | nil => rfl
    | cons text' others' =>
      have hne := (List.forall_mem_cons.mp h').1.1
      by_cases hothers' : others' = []
      · simp_all
      · simp [hsplit hothers'] at heq
  | cons text others ih =>
    obtain ⟨⟨hne, hfree⟩, hothers⟩ := List.forall_mem_cons.mp h
    cases texts' with
    | nil =>
      by_cases hlast : others = []
      · simp_all
      · simp [hsplit hlast] at heq
    | cons text' others' =>
      obtain ⟨⟨hne', hfree'⟩, hothers'⟩ := List.forall_mem_cons.mp h'
      by_cases hlast : others = []
      · by_cases hlast' : others' = []
        · simp_all
        · rw [hsplit hlast', hlast, List.intercalate_singleton] at heq
          exact absurd (heq ▸ by simp) hfree
      · by_cases hlast' : others' = []
        · rw [hsplit hlast, hlast', List.intercalate_singleton] at heq
          exact absurd (heq ▸ by simp) hfree'
        · rw [hsplit hlast, hsplit hlast'] at heq
          obtain ⟨rfl, hrest⟩ := eq_of_cut_first hfree hfree' heq
          rw [ih hothers hothers' (List.append_cancel_left hrest)]

end Separators

theorem mem_of_mem_intercalate {α : Type} {c : α} {separator : List α} {texts : List (List α)}
    (h : c ∈ separator.intercalate texts) : c ∈ separator ∨ ∃ text ∈ texts, c ∈ text := by
  induction texts with
  | nil => simp at h
  | cons text texts ih =>
    cases texts with
    | nil => exact .inr ⟨text, by simp, by simpa using h⟩
    | cons next texts =>
      rw [List.intercalate_cons_cons, List.mem_append, List.mem_append] at h
      rcases h with (h | h) | h
      · exact .inr ⟨text, by simp, h⟩
      · exact .inl h
      · exact (ih h).imp_right fun ⟨found, hfound, hc⟩ => ⟨found, List.mem_cons_of_mem _ hfound, hc⟩

/-- Each of the texts stands at the front or behind a separator. -/
theorem prefix_or_infix_intercalate {α : Type} {separator text : List α} {texts : List (List α)}
    (h : text ∈ texts) : text <+: separator.intercalate texts
      ∨ separator ++ text <:+: separator.intercalate texts := by
  induction texts with
  | nil => cases h
  | cons first texts ih =>
    cases texts with
    | nil =>
      rw [List.mem_singleton.mp h, List.intercalate_singleton]
      exact .inl (List.prefix_refl _)
    | cons next texts =>
      rw [List.intercalate_cons_cons]
      obtain rfl | hmem := List.mem_cons.mp h
      · left
        rw [List.append_assoc]
        exact List.prefix_append _ _
      · right
        obtain ⟨back, hback⟩ | hinfix := ih hmem
        · exact ⟨first, back, by rw [← hback]; simp⟩
        · exact hinfix.trans (List.suffix_append _ _).isInfix

end StyleAudit
