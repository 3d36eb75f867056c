import StyleAudit.Proofs.Json.Readable
import StyleAudit.Proofs.Json.Strings

/-!
# Written values are read back

What is written for a value is cut into the value's tokens again, and the machine puts these
together to the value (`Json.assemble_write`). So a value without floating point numbers whose names
and whole numbers could have been read is read back from what is written for it, in either style
(`Json.readWithin_write`).
-/

namespace StyleAudit

namespace Json

/-! ## Tokens -/

section Tokens

variable {τ : Type} [JsonText τ] {limit : Option Nat} {style : Style} {c : Char}
  {piece rest : List Char} {next : Token τ}

/-- The characters of a token that is dealt with are passed over. -/
theorem tokens_skip (index : Nat) (piece rest : List Char) :
    (tokens limit index piece.length (piece ++ rest) : List (Nat × Token τ))
      = tokens limit (index + piece.length) 0 rest := by
  induction piece generalizing index with
  | nil => rfl
  | cons c piece ih =>
    rw [List.length_cons, List.cons_append, tokens, ih, Nat.add_right_comm, Nat.add_assoc]

theorem tokens_spaces (index : Nat) (h : ∀ c ∈ piece, isSpace c = true) :
    (tokens limit index 0 (piece ++ rest) : List (Nat × Token τ))
      = tokens limit (index + piece.length) 0 rest := by
  induction piece generalizing index with
  | nil => rfl
  | cons c piece ih =>
    rw [List.forall_mem_cons] at h
    rw [List.cons_append, tokens, if_pos h.1, ih _ h.2, List.length_cons, Nat.add_right_comm,
      Nat.add_assoc]

theorem tokens_newLine (index level : Nat) (rest : List Char) :
    (tokens limit index 0 (newLine level ++ rest) : List (Nat × Token τ))
      = tokens limit (index + (newLine level).length) 0 rest := by
  apply tokens_spaces
  rw [newLine, List.forall_mem_cons]
  refine ⟨rfl, fun c hc => ?_⟩
  rw [List.eq_of_mem_replicate hc]
  rfl

/-- A token at the front of a text is the first of its tokens. -/
theorem tokens_of_token {index : Nat} (hspace : isSpace c = false)
    (htoken : token limit index (c :: (piece ++ rest)) = (next, piece.length + 1))
    (hnext : ∀ error, next ≠ .faulty error) :
    tokens limit index 0 (c :: (piece ++ rest))
      = (index, next) :: tokens limit (index + (piece.length + 1)) 0 rest := by
  rw [tokens, if_neg (by simp [hspace]), htoken]
  split
  · next error length heq => exact absurd (Prod.mk.inj heq).1 (hnext error)
  · next next' length hother heq =>
    obtain ⟨rfl, rfl⟩ := Prod.mk.inj heq
    rw [Nat.add_sub_cancel, tokens_skip, Nat.add_right_comm, Nat.add_assoc]

theorem tokens_mark (index : Nat) (h : c ∈ ['\x7b', '\x7d', '[', ']', ',', ':'])
    (rest : List Char) :
    (tokens limit index 0 (c :: rest) : List (Nat × Token τ))
      = (index, .mark c) :: tokens limit (index + 1) 0 rest := by
  have hspace : isSpace c = false := by
    have hall : ∀ c ∈ ['\x7b', '\x7d', '[', ']', ',', ':'], isSpace c = false := by simp [isSpace]
    exact hall c h
  have htoken : token limit index (c :: ([] ++ rest)) = ((.mark c : Token τ), 1) := by
    rw [token, if_pos h]
  exact tokens_of_token hspace htoken (by rintro error ⟨⟩)

theorem tokens_writeText (index : Nat) (text : τ) (rest : List Char) :
    tokens limit index 0 (writeText style text ++ rest)
      = (index, .text text) :: tokens limit (index + (writeText style text).length) 0 rest := by
  generalize hshown : (points (JsonText.units text)).flatMap (writePoint style) = shown
  have htoken : token limit index ('"' :: (shown ++ ['"'] ++ rest))
      = (.text text, (shown ++ ['"']).length + 1) := by
    rw [List.append_assoc, List.singleton_append, token, if_neg (by decide), if_pos rfl, ← hshown,
      stringBody_writeText]
    simp only [List.reverse_nil, List.nil_append, JsonText.ofUnits_units, List.length_append,
      List.length_singleton, Prod.mk.injEq, true_and]
    omega
  rw [writeText, hshown]
  exact tokens_of_token rfl htoken (by rintro error ⟨⟩)

theorem ne_of_isDigit {d : Char} (hc : c.isDigit = true) (hd : d.isDigit = false) : c ≠ d := by
  rintro rfl
  rw [hc] at hd
  cases hd

/-- A whole number starts with a digit, behind its sign if it has one. -/
theorem writeInt_eq_cons (n : Int) : ∃ c piece, writeInt n = c :: piece
    ∧ (c.isDigit = true ∨ c = '-' ∧ ∃ d more, piece = d :: more ∧ d.isDigit = true) := by
  obtain ⟨d, more, hdigits⟩ := List.exists_cons_of_ne_nil (digits_ne_nil n.natAbs)
  have hdigit : d.isDigit = true := isDigit_of_mem_digits (hdigits ▸ List.mem_cons_self)
  rw [writeInt, hdigits]
  split
  · exact ⟨'-', d :: more, rfl, .inr ⟨rfl, d, more, rfl, hdigit⟩⟩
  · exact ⟨d, more, rfl, .inl hdigit⟩

omit [JsonText τ] in
/-- No constant with a name starts like a whole number. -/
theorem find?_constants_eq_none
    (h : c.isDigit = true ∨ c = '-' ∧ ∃ d more, piece = d :: more ∧ d.isDigit = true) :
    (constants : List (String × Json τ)).find?
      (fun constant => constant.1.toList.isPrefixOf (c :: (piece ++ rest))) = none := by
  rcases h with hdigit | ⟨rfl, d, more, rfl, hdigit⟩
  · have hne : 'n' ≠ c ∧ 't' ≠ c ∧ 'f' ≠ c ∧ 'N' ≠ c ∧ 'I' ≠ c ∧ '-' ≠ c := by
      refine ⟨?_, ?_, ?_, ?_, ?_, ?_⟩ <;> exact (ne_of_isDigit hdigit rfl).symm
    simp [constants, hne]
  · have hne : 'I' ≠ d := (ne_of_isDigit hdigit rfl).symm
    simp [constants, hne]

theorem tokens_writeInt (index : Nat) {n : Int} (hrest : EndsNumber rest)
    (hlength : allowsDigits limit (digits n.natAbs).length = true) :
    (tokens limit index 0 (writeInt n ++ rest) : List (Nat × Token τ))
      = (index, .atom (.int n)) :: tokens limit (index + (writeInt n).length) 0 rest := by
  have hnumber : number? limit (writeInt n ++ rest)
      = some ((.atom (.int n) : Token τ), (writeInt n).length) :=
    number?_writeInt hrest hlength
  obtain ⟨c, piece, hpiece, hfirst⟩ := writeInt_eq_cons n
  rw [hpiece] at hnumber ⊢
  have hne : c ∉ ['\x7b', '\x7d', '[', ']', ',', ':'] ∧ c ≠ '"' ∧ isSpace c = false := by
    rcases hfirst with hdigit | ⟨rfl, -⟩
    · simp [isSpace, ne_of_isDigit hdigit]
    · decide
  have htoken : token limit index (c :: (piece ++ rest))
      = ((.atom (.int n) : Token τ), piece.length + 1) := by
    rw [token, if_neg hne.1, if_neg hne.2.1, find?_constants_eq_none hfirst]
    rw [List.cons_append] at hnumber
    rw [hnumber]
    rfl
  exact tokens_of_token hne.2.2 htoken (by rintro error ⟨⟩)

theorem tokens_null (index : Nat) (rest : List Char) :
    (tokens limit index 0 ("null".toList ++ rest) : List (Nat × Token τ))
      = (index, .atom .null) :: tokens limit (index + 4) 0 rest := by
  have htoken : token limit index ("null".toList ++ rest) = ((.atom .null : Token τ), 4) := by
    simp [token, constants, show "null".length = 4 from rfl]
  exact tokens_of_token rfl htoken (by rintro error ⟨⟩)

theorem tokens_bool (index : Nat) (value : Bool) (rest : List Char) :
    (tokens limit index 0 ((if value then "true" else "false").toList ++ rest)
        : List (Nat × Token τ))
      = (index, .atom (.bool value)) :: tokens limit (index + (if value then 4 else 5)) 0 rest := by
  cases value with
  | false =>
    have htoken : token limit index ("false".toList ++ rest)
        = ((.atom (.bool false) : Token τ), 5) := by
      simp [token, constants, show "false".length = 5 from rfl]
    exact tokens_of_token rfl htoken (by rintro error ⟨⟩)
  | true =>
    have htoken : token limit index ("true".toList ++ rest)
        = ((.atom (.bool true) : Token τ), 4) := by
      simp [token, constants, show "true".length = 4 from rfl]
    exact tokens_of_token rfl htoken (by rintro error ⟨⟩)

end Tokens

/-! ## Values -/

variable {τ : Type} [JsonText τ] {limit : Option Nat} {style : Style}

/-- Whether a text goes on as a written text does behind a value. -/
def EndsValue (text : List Char) : Prop :=
  ∃ c rest, text = c :: rest ∧ (c = ',' ∨ c = '\n')

theorem EndsValue.endsNumber {text : List Char} (h : EndsValue text) : EndsNumber text := by
  obtain ⟨c, rest, rfl, hc⟩ := h
  rintro _ ⟨⟩
  rcases hc with rfl | rfl <;> decide

theorem endsValue_newLine (level : Nat) (rest : List Char) : EndsValue (newLine level ++ rest) :=
  ⟨'\n', _, rfl, .inr rfl⟩

theorem endsValue_writeItems (level : Nat) (items : List (Json τ)) {rest : List Char}
    (h : EndsValue rest) : EndsValue (writeItems style level items ++ rest) := by
  cases items with
  | nil => exact h
  | cons item items => exact ⟨',', _, rfl, .inl rfl⟩

theorem endsValue_writeEntries (level : Nat) (entries : List (τ × Json τ)) {rest : List Char}
    (h : EndsValue rest) : EndsValue (writeEntries style level entries ++ rest) := by
  cases entries with
  | nil => exact h
  | cons entry entries => exact ⟨',', _, rfl, .inl rfl⟩

variable [DecidableEq τ]

omit [JsonText τ] in
/-- An entry that has a new name goes behind those that were there. -/
theorem setEntry_of_nodup {name : τ} {value : Json τ} {done entries : List (τ × Json τ)}
    (h : ((done ++ (name, value) :: entries).map Prod.fst).Nodup) :
    setEntry name value done = done ++ [(name, value)] := by
  apply setEntry_of_not_mem
  rw [List.map_append, List.map_cons, List.nodup_append] at h
  exact fun hmem => h.2.2 name hmem name List.mem_cons_self rfl

variable (stop : Nat)

theorem assemble_name (level index : Nat) (mayClose : Bool) (stack : List (Frame τ)) (name : τ)
    (done : List (τ × Json τ)) (rest : List Char) :
    ∃ index', assemble stop (.name done mayClose) stack
        (tokens limit index 0 (newLine level ++ (writeText style name ++ ':' :: ' ' :: rest)))
      = assemble stop (.value false) (.object done name :: stack) (tokens limit index' 0 rest) := by
  have hspace (index : Nat) : (tokens limit index 0 (' ' :: rest) : List (Nat × Token τ))
      = tokens limit (index + 1) 0 rest :=
    tokens_spaces index (by simp [isSpace] : ∀ c ∈ [' '], isSpace c = true)
  exact ⟨_, by rw [tokens_newLine, tokens_writeText, assemble, tokens_mark _ (by decide),
    assemble, hspace]⟩

mutual

/-- What is written for a value is put together to the value. -/
theorem assemble_write (level index : Nat) (mayClose : Bool) (stack : List (Frame τ))
    {rest : List Char} (hrest : EndsValue rest) :
    (value : Json τ) → value.isReadable limit = true → value.isFloatFree = true →
    ∃ index', assemble stop (.value mayClose) stack
        (tokens limit index 0 (write style level value ++ rest))
      = assemble stop (.after value) stack (tokens limit index' 0 rest)
  | .null, _, _ => ⟨_, by rw [write, tokens_null, assemble]⟩
  | .bool value, _, _ => ⟨_, by rw [write, tokens_bool, assemble]⟩
  | .int n, hreadable, _ => by
    have hlength : allowsDigits limit (digits n.natAbs).length = true := hreadable
    exact ⟨_, by rw [write, tokens_writeInt index hrest.endsNumber hlength, assemble]⟩
  | .float value, _, hfloat => by cases hfloat
  | .str text, _, _ => ⟨_, by rw [write, tokens_writeText, assemble]⟩
  | .arr [], _, _ => ⟨index + 1 + 1, by
    rw [write, List.cons_append, tokens_mark _ (by decide), List.cons_append,
      tokens_mark _ (by decide), assemble, assemble]
    rfl⟩
  | .arr (item :: items), hreadable, hfloat => by
    -- the first item has no comma in front of it, so it is not one of `writeItems`
    rw [isReadable_arr, List.forall_mem_cons] at hreadable
    rw [isFloatFree_arr, List.forall_mem_cons] at hfloat
    obtain ⟨middle, hitem⟩ := assemble_write (level + 1) (index + 1 + (newLine (level + 1)).length)
      true (.array [] :: stack)
      (endsValue_writeItems (level + 1) items (endsValue_newLine level (']' :: rest)))
      item hreadable.1 hfloat.1
    obtain ⟨index', hitems⟩ := assemble_writeItems (level + 1) level middle stack item [] rest
      items hreadable.2 hfloat.2
    refine ⟨index', ?_⟩
    simp only [write, List.cons_append, List.append_assoc, List.nil_append]
    rw [tokens_mark _ (by decide), assemble, tokens_newLine, hitem, hitems]
    rfl
  | .obj [], _, _ => ⟨index + 1 + 1, by
    rw [write, List.cons_append, tokens_mark _ (by decide), List.cons_append,
      tokens_mark _ (by decide), assemble, assemble]
    rfl⟩
  | .obj ((name, value) :: entries), hreadable, hfloat => by
    rw [isReadable_obj, List.forall_mem_cons] at hreadable
    rw [isFloatFree_obj, List.forall_mem_cons] at hfloat
    obtain ⟨before, hname⟩ := assemble_name stop (level + 1) (index + 1) true stack name []
      (write style (level + 1) value ++ (writeEntries style (level + 1) entries
        ++ (newLine level ++ '\x7d' :: rest)))
    obtain ⟨middle, hvalue⟩ := assemble_write (level + 1) before false (.object [] name :: stack)
      (endsValue_writeEntries (level + 1) entries (endsValue_newLine level ('\x7d' :: rest)))
      value hreadable.2.1 hfloat.1
    obtain ⟨index', hentries⟩ := assemble_writeEntries (level + 1) level middle stack name value []
      rest entries hreadable.2.2 hfloat.2 hreadable.1
    refine ⟨index', ?_⟩
    simp only [write, List.cons_append, List.append_assoc, List.nil_append]
    rw [tokens_mark _ (by decide), assemble, hname, hvalue, hentries]
    rfl

/-- The items behind the first are put together with those in front of them. -/
theorem assemble_writeItems (level outer index : Nat) (stack : List (Frame τ)) (first : Json τ)
    (done : List (Json τ)) (rest : List Char) :
    (items : List (Json τ)) → (∀ item ∈ items, item.isReadable limit = true) →
    (∀ item ∈ items, item.isFloatFree = true) →
    ∃ index', assemble stop (.after first) (.array done :: stack)
        (tokens limit index 0 (writeItems style level items ++ (newLine outer ++ ']' :: rest)))
      = assemble stop (.after (.arr (done.reverse ++ first :: items))) stack
        (tokens limit index' 0 rest)
  | [], _, _ => by
    refine ⟨index + (newLine outer).length + 1, ?_⟩
    rw [writeItems, List.nil_append, tokens_newLine, tokens_mark _ (by decide), assemble,
      List.reverse_cons]
  | item :: items, hreadable, hfloat => by
    rw [List.forall_mem_cons] at hreadable hfloat
    obtain ⟨middle, hitem⟩ := assemble_write level (index + 1 + (newLine level).length) false
      (.array (first :: done) :: stack)
      (endsValue_writeItems level items (endsValue_newLine outer (']' :: rest)))
      item hreadable.1 hfloat.1
    obtain ⟨index', hitems⟩ := assemble_writeItems level outer middle stack item (first :: done)
      rest items hreadable.2 hfloat.2
    refine ⟨index', ?_⟩
    simp only [writeItems, List.cons_append, List.append_assoc]
    rw [tokens_mark _ (by decide), assemble, tokens_newLine, hitem, hitems, List.reverse_cons,
      List.append_assoc]
    rfl

/-- The entries behind the first are put together with those in front of them. -/
theorem assemble_writeEntries (level outer index : Nat) (stack : List (Frame τ)) (name : τ)
    (first : Json τ) (done : List (τ × Json τ)) (rest : List Char) :
    (entries : List (τ × Json τ)) → (∀ entry ∈ entries, entry.2.isReadable limit = true) →
    (∀ entry ∈ entries, entry.2.isFloatFree = true) →
    ((done ++ (name, first) :: entries).map Prod.fst).Nodup →
    ∃ index', assemble stop (.after first) (.object done name :: stack)
        (tokens limit index 0
          (writeEntries style level entries ++ (newLine outer ++ '\x7d' :: rest)))
      = assemble stop (.after (.obj (done ++ (name, first) :: entries))) stack
        (tokens limit index' 0 rest)
  | [], _, _, hnames => by
    refine ⟨index + (newLine outer).length + 1, ?_⟩
    rw [writeEntries, List.nil_append, tokens_newLine, tokens_mark _ (by decide), assemble,
      setEntry_of_nodup hnames]
  | (next, value) :: entries, hreadable, hfloat, hnames => by
    rw [List.forall_mem_cons] at hreadable hfloat
    -- the names differ, so the entry that is done goes behind the others
    have hdone := setEntry_of_nodup hnames
    rw [List.append_cons] at hnames
    obtain ⟨before, hname⟩ := assemble_name stop level (index + 1) false stack next
      (done ++ [(name, first)]) (write style level value ++ (writeEntries style level entries
        ++ (newLine outer ++ '\x7d' :: rest)))
    obtain ⟨middle, hvalue⟩ := assemble_write level before false
      (.object (done ++ [(name, first)]) next :: stack)
      (endsValue_writeEntries level entries (endsValue_newLine outer ('\x7d' :: rest)))
      value hreadable.1 hfloat.1
    obtain ⟨index', hentries⟩ := assemble_writeEntries level outer middle stack next value
      (done ++ [(name, first)]) rest entries hreadable.2 hfloat.2 hnames
    refine ⟨index', ?_⟩
    simp only [writeEntries, List.cons_append, List.append_assoc]
    rw [tokens_mark _ (by decide), assemble, hdone, hname, hvalue, hentries,
      List.append_cons done (name, first) ((next, value) :: entries)]

end

omit [DecidableEq τ] in
/-- A value without floating point numbers starts with an ASCII character. -/
theorem write_eq_cons (level : Nat) {value : Json τ} (hfloat : value.isFloatFree = true) :
    ∃ c rest, write style level value = c :: rest ∧ c.toNat < 0x80 := by
  have hbool (value : Bool) :
      ∃ c rest, (if value then "true" else "false").toList = c :: rest ∧ c.toNat < 0x80 := by
    cases value with
    | true => exact ⟨'t', _, rfl, by decide⟩
    | false => exact ⟨'f', _, rfl, by decide⟩
  have hdigit {c : Char} (hc : c.isDigit = true) : c.toNat < 0x80 := by
    rw [Char.isDigit_iff_toNat] at hc
    have hnine : '9'.toNat = 57 := rfl
    omega
  fun_cases write style level value with
  | case1 => exact ⟨'n', _, rfl, by decide⟩
  | case2 value => exact hbool value
  | case3 n =>
    obtain ⟨c, piece, hpiece, hfirst⟩ := writeInt_eq_cons n
    refine ⟨c, piece, hpiece, ?_⟩
    rcases hfirst with hc | ⟨rfl, -⟩
    · exact hdigit hc
    · decide
  | case4 value => cases hfloat
  | case5 text => exact ⟨'"', _, rfl, by decide⟩
  | case6 | case7 => exact ⟨'[', _, rfl, by decide⟩
  | case8 | case9 => exact ⟨'\x7b', _, rfl, by decide⟩

/-- A value that can have been read with a limit is read back from what is written for it, with a
line feed behind it. -/
theorem readWithin_write {value : Json τ} (hreadable : value.isReadable limit = true)
    (hfloat : value.isFloatFree = true) :
    readWithin limit (write style 0 value ++ ['\n']) = .ok value := by
  have hmark : (write style 0 value ++ ['\n']).head? ≠ some (Char.ofNat 0xfeff) := by
    obtain ⟨c, rest, hfront, hc⟩ := write_eq_cons 0 hfloat
    rw [hfront, List.cons_append, List.head?_cons, Ne, Option.some.injEq]
    rintro rfl
    exact absurd hc (by decide)
  have hends : EndsValue ['\n'] := ⟨'\n', [], rfl, .inr rfl⟩
  obtain ⟨index, hvalue⟩ :
      ∃ index, assemble _ (.value false) [] (tokens limit 0 0 (write style 0 value ++ ['\n']))
        = assemble _ (.after value) [] (tokens limit index 0 ['\n']) :=
    assemble_write (write style 0 value ++ ['\n']).length 0 0 false [] hends value hreadable hfloat
  rw [readWithin, if_neg hmark, hvalue, tokens, if_pos (show isSpace '\n' = true from rfl), tokens,
    assemble]

end Json

end StyleAudit
