import Mathlib.Data.List.Nodup
import StyleAudit.Proofs.Json.Numbers

/-!
# Values that can be read

Not every value can come from a text: the digits of a whole number that is read are within the
limit of the reader, and an object that is read has each of its names once. These conditions hold
of all values in a value that is read (`Json.isReadable_of_readWithin`).
-/

namespace StyleAudit

namespace Json

/-! ## Values in a value -/

variable {τ : Type}

mutual

/-- Whether a condition holds of a value and of all values in it. -/
def every (p : Json τ → Bool) : Json τ → Bool
  | .arr items => p (.arr items) && everyItem p items
  | .obj entries => p (.obj entries) && everyEntry p entries
  | value => p value

/-- Whether a condition holds of all items and of all values in them. -/
def everyItem (p : Json τ → Bool) : List (Json τ) → Bool
  | [] => true
  | item :: items => every p item && everyItem p items

/-- Whether a condition holds of the values of all entries and of all values in them. -/
def everyEntry (p : Json τ → Bool) : List (τ × Json τ) → Bool
  | [] => true
  | (_, value) :: entries => every p value && everyEntry p entries

end

variable {p : Json τ → Bool} {items : List (Json τ)} {entries : List (τ × Json τ)}

theorem everyItem_iff : everyItem p items = true ↔ ∀ item ∈ items, every p item = true := by
  induction items with
  | nil => simp [everyItem]
  | cons item items ih => simp [everyItem, ih]

theorem everyEntry_iff :
    everyEntry p entries = true ↔ ∀ entry ∈ entries, every p entry.2 = true := by
  induction entries with
  | nil => simp [everyEntry]
  | cons entry entries ih => simp [everyEntry, ih]

theorem every_arr :
    every p (arr items) = true ↔ p (arr items) = true ∧ ∀ item ∈ items, every p item = true := by
  rw [every, Bool.and_eq_true, everyItem_iff]

theorem every_obj : every p (obj entries) = true
    ↔ p (obj entries) = true ∧ ∀ entry ∈ entries, every p entry.2 = true := by
  rw [every, Bool.and_eq_true, everyEntry_iff]

theorem every_of_lookup [DecidableEq τ] {name : τ} {value : Json τ}
    (h : every p (obj entries) = true) (hvalue : entries.lookup name = some value) : every p value = true :=
  (every_obj.mp h).2 _ (mem_of_lookup_eq_some hvalue)

/-- A condition that new entries do not break holds of an object with a new entry. -/
theorem every_setEntry [DecidableEq τ] {name : τ} {value : Json τ}
    (hp : p (obj entries) = true → p (obj (setEntry name value entries)) = true)
    (hentries : every p (obj entries) = true) (hvalue : every p value = true) :
    every p (obj (setEntry name value entries)) = true := by
  rw [every_obj] at hentries ⊢
  refine ⟨hp hentries.1, fun entry hentry => ?_⟩
  rcases mem_of_mem_setEntry hentry with rfl | hentry
  · exact hvalue
  · exact hentries.2 entry hentry

/-- Whether a value is a floating point number. -/
def isFloat : Json τ → Bool
  | .float _ => true
  | _ => false

/-- Whether there is no floating point number in a value. -/
def isFloatFree : Json τ → Bool := every fun value => !value.isFloat

theorem isFloatFree_arr :
    (arr items).isFloatFree = true ↔ ∀ item ∈ items, item.isFloatFree = true := by
  rw [isFloatFree, every_arr]
  exact and_iff_right rfl

theorem isFloatFree_obj :
    (obj entries).isFloatFree = true ↔ ∀ entry ∈ entries, entry.2.isFloatFree = true := by
  rw [isFloatFree, every_obj]
  exact and_iff_right rfl

/-- Whether reading with a limit allows a value, apart from the values in it. -/
def isAllowed [DecidableEq τ] (limit : Option Nat) : Json τ → Bool
  | .int n => allowsDigits limit (digits n.natAbs).length
  | .obj entries => decide (entries.map Prod.fst).Nodup
  | _ => true

/-- Whether a value can have been read with a limit. -/
def isReadable [DecidableEq τ] (limit : Option Nat) : Json τ → Bool := every (isAllowed limit)

variable [DecidableEq τ] {limit : Option Nat}

theorem isReadable_arr : (arr items).isReadable limit = true
    ↔ ∀ item ∈ items, item.isReadable limit = true := by
  rw [isReadable, every_arr]
  exact and_iff_right rfl

theorem isReadable_obj : (obj entries).isReadable limit = true
    ↔ (entries.map Prod.fst).Nodup ∧ ∀ entry ∈ entries, entry.2.isReadable limit = true := by
  rw [isReadable, every_obj, isAllowed, decide_eq_true_eq]

theorem isAllowed_setEntry {name : τ} {value : Json τ}
    (h : (obj entries).isAllowed limit = true) :
    (obj (setEntry name value entries)).isAllowed limit = true := by
  rw [isAllowed, decide_eq_true_eq] at h ⊢
  rw [map_fst_setEntry]
  split
  · exact h
  · next hnew =>
    rw [List.nodup_append]
    exact ⟨h, List.nodup_singleton name, by
      rintro _ hmem _ hname rfl
      exact hnew (List.mem_singleton.mp hname ▸ hmem)⟩

/-! ## Tokens -/

theorem isDigit_of_mem_wholeDigits {text : List Char} {c : Char} (h : c ∈ wholeDigits text) :
    c.isDigit = true := by
  revert h
  fun_cases wholeDigits text with
  | case1 text =>
    rw [List.mem_singleton]
    rintro rfl
    rfl
  | case2 => exact fun h => List.mem_takeWhile_imp h

theorem isReadable_int {n : Int} {text : List Char} (hn : n.natAbs = decimal (wholeDigits text))
    (hne : wholeDigits text ≠ []) (hlength : allowsDigits limit (wholeDigits text).length = true) :
    (int n : Json τ).isReadable limit = true := by
  have hdigits := length_digits_decimal_le hne fun c hc => isDigit_of_mem_wholeDigits hc
  rw [← hn] at hdigits
  exact allowsDigits_of_le hdigits hlength

/-- A number that is read is within the limits. -/
theorem isReadable_of_number? {text : List Char} {value : Json τ} {length : Nat}
    (h : number? limit text = some (.atom value, length)) : value.isReadable limit = true := by
  revert h
  fun_cases number? limit text with
  | case1 => rintro ⟨⟩
  | case2 negative body _ whole hne _ _ _ _ _ _ size hlength =>
    intro h
    simp only [Option.some.injEq, Prod.mk.injEq, Token.atom.injEq] at h
    rw [← h.1]
    apply isReadable_int _ (by simpa [whole] using hne) hlength
    split <;> simp [size, whole]
  | case3 => rintro ⟨⟩
  | case4 =>
    intro h
    simp only [Option.some.injEq, Prod.mk.injEq, Token.atom.injEq] at h
    rw [← h.1]
    rfl

theorem isReadable_of_token [JsonText τ] {index length : Nat} {text : List Char} {value : Json τ}
    (h : token limit index text = (.atom value, length)) : value.isReadable limit = true := by
  unfold token at h
  split at h
  · cases h
  · split at h
    · cases h
    · split at h
      · split at h <;> cases h
      · split at h
        · next constant hconstant =>
          obtain ⟨hvalue, -⟩ := Prod.mk.inj h
          have hall : ∀ constant ∈ (constants : List (String × Json τ)),
              constant.2.isReadable limit = true := by
            simp [constants, isReadable, every, isAllowed]
          rw [← Token.atom.inj hvalue]
          exact hall constant (List.mem_of_find?_eq_some hconstant)
        · next c rest _ _ _ _ =>
          cases hnumber : number? limit (c :: rest) with
          | none =>
            rw [hnumber, Option.getD_none] at h
            cases h
          | some found =>
            rw [hnumber, Option.getD_some] at h
            exact isReadable_of_number? (h ▸ hnumber)

theorem isReadable_of_mem_tokens [JsonText τ] {start skip index : Nat} {text : List Char}
    {value : Json τ} (h : (index, .atom value) ∈ tokens limit start skip text) :
    value.isReadable limit = true := by
  fun_induction @tokens τ _ limit start skip text with
  | case1 => cases h
  | case2 start c rest skip ih => exact ih h
  | case3 start c rest hspace ih => exact ih h
  | case4 start c rest hspace error length htoken => simp at h
  | case5 start c rest hspace next length hnext htoken ih =>
    rcases List.mem_cons.mp h with heq | h
    · obtain ⟨-, rfl⟩ := Prod.mk.inj heq
      exact isReadable_of_token htoken
    · exact ih h

/-! ## Putting tokens together -/

/-- Whether the values that a frame holds can have been read. -/
def Frame.IsReadable (limit : Option Nat) : Frame τ → Prop
  | .array items => (arr items).isReadable limit = true
  | .object entries _ => (obj entries).isReadable limit = true

/-- Whether the values that are there when something is wanted can have been read. -/
def Want.IsReadable (limit : Option Nat) : Want τ → Prop
  | .value _ => True
  | .name entries _ => (obj entries).isReadable limit = true
  | .colon entries _ => (obj entries).isReadable limit = true
  | .after found => found.isReadable limit = true

/-- Whether all values among some tokens can have been read. -/
def TokensReadable (limit : Option Nat) (found : List (Nat × Token τ)) : Prop :=
  ∀ index value, (index, .atom value) ∈ found → value.isReadable limit = true

theorem TokensReadable.tail {entry : Nat × Token τ} {found : List (Nat × Token τ)}
    (h : TokensReadable limit (entry :: found)) : TokensReadable limit found :=
  fun index value hmem => h index value (List.mem_cons_of_mem _ hmem)

/-- Nothing that cannot have been read is made of what was. -/
theorem isReadable_of_assemble {stop : Nat} {want : Want τ} {stack : List (Frame τ)}
    {found : List (Nat × Token τ)} {value : Json τ} (hwant : want.IsReadable limit)
    (hstack : ∀ frame ∈ stack, frame.IsReadable limit) (hfound : TokensReadable limit found)
    (h : assemble stop want stack found = .ok value) : value.isReadable limit = true := by
  -- a step that is not named here is a failure
  fun_induction assemble stop want stack found with
  | case1 found => exact Except.ok.inj h ▸ hwant
  | case3 mayClose index rest atom stack ih =>
    exact ih (hfound index atom List.mem_cons_self) hstack hfound.tail h
  | case4 mayClose index rest text stack ih => exact ih rfl hstack hfound.tail h
  | case5 mayClose index rest stack ih =>
    exact ih trivial (List.forall_mem_cons.mpr ⟨rfl, hstack⟩) hfound.tail h
  | case6 mayClose index rest stack ih => exact ih rfl hstack hfound.tail h
  | case7 index rest items stack ih =>
    rw [List.forall_mem_cons] at hstack
    refine ih ?_ hstack.2 hfound.tail h
    have hitems := isReadable_arr.mp hstack.1
    exact isReadable_arr.mpr fun item hitem => hitems item (List.mem_reverse.mp hitem)
  | case11 entries mayClose stack index rest name ih => exact ih hwant hstack hfound.tail h
  | case12 entries stack index rest ih => exact ih hwant hstack hfound.tail h
  | case18 entries name stack index rest ih =>
    exact ih trivial (List.forall_mem_cons.mpr ⟨hwant, hstack⟩) hfound.tail h
  | case21 item index rest items stack ih =>
    rw [List.forall_mem_cons] at hstack
    refine ih trivial (List.forall_mem_cons.mpr ⟨?_, hstack.2⟩) hfound.tail h
    exact isReadable_arr.mpr (List.forall_mem_cons.mpr ⟨hwant, isReadable_arr.mp hstack.1⟩)
  | case22 item index rest items stack ih =>
    rw [List.forall_mem_cons] at hstack
    refine ih ?_ hstack.2 hfound.tail h
    have hitems : ∀ other ∈ item :: items, other.isReadable limit = true :=
      List.forall_mem_cons.mpr ⟨hwant, isReadable_arr.mp hstack.1⟩
    exact isReadable_arr.mpr fun other hother => hitems other (List.mem_reverse.mp hother)
  | case23 item index rest entries name stack ih =>
    -- a name that is there keeps its place, so no name is there twice
    rw [List.forall_mem_cons] at hstack
    exact ih (every_setEntry isAllowed_setEntry hstack.1 hwant) hstack.2 hfound.tail h
  | case24 item index rest entries name stack ih =>
    rw [List.forall_mem_cons] at hstack
    exact ih (every_setEntry isAllowed_setEntry hstack.1 hwant) hstack.2 hfound.tail h
  | _ => cases h

/-- A value that is read is within the limits, and so are the values in it. -/
theorem isReadable_of_readWithin [JsonText τ] {text : List Char} {value : Json τ}
    (h : readWithin limit text = .ok value) : value.isReadable limit = true := by
  rw [readWithin] at h
  split at h
  · cases h
  · have hwant : (Want.value false : Want τ).IsReadable limit := trivial
    exact isReadable_of_assemble hwant (by simp)
      (fun index value hmem => isReadable_of_mem_tokens hmem) h

end Json

end StyleAudit
