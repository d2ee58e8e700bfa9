import DeferredSave.Json.Parser
import DeferredSave.Json.Printer

/-! Documents come back from their text.

The reader undoes the printer on every document in which no object has a repeated key, as soon as it
does so on the words and numbers that the document is built from. Texts may hold any characters. -/

namespace DeferredSave.Json

open DeferredSave.Json.Parser

/-! ### Characters of a string -/

theorem hexValue?_hexChar {d : Nat} (h : d < 16) : hexValue? (hexChar d) = some d := by
  have all : ∀ d < 16, hexValue? (hexChar d) = some d := by decide
  exact all d h

/-- The four digits of a code unit. -/
def unitDigits (n : Nat) : List Char :=
  [hexChar (n / 4096 % 16), hexChar (n / 256 % 16), hexChar (n / 16 % 16), hexChar (n % 16)]

theorem escapeUnit_eq (n : Nat) : escapeUnit n = '\\' :: 'u' :: unitDigits n := rfl

theorem unit?_unitDigits {n : Nat} (h : n < 65536) (rest : List Char) :
    unit? (unitDigits n ++ rest) = some (n, rest) := by
  have h₁ : n / 4096 % 16 < 16 := Nat.mod_lt _ (by decide)
  have h₂ : n / 256 % 16 < 16 := Nat.mod_lt _ (by decide)
  have h₃ : n / 16 % 16 < 16 := Nat.mod_lt _ (by decide)
  have h₄ : n % 16 < 16 := Nat.mod_lt _ (by decide)
  simp only [unitDigits, List.cons_append, List.nil_append, unit?, hexValue?_hexChar h₁,
    hexValue?_hexChar h₂, hexValue?_hexChar h₃, hexValue?_hexChar h₄, Option.bind_eq_bind,
    Option.bind_some, Option.some.injEq, Prod.mk.injEq, and_true]
  omega

/-- A code unit that is no half of a pair stands for its character. -/
theorem unicodeEscape?_unitDigits {c : Char} (h : c.toNat < 0x10000) (rest : List Char) :
    unicodeEscape? (unitDigits c.toNat ++ rest) = some (c, rest) := by
  have hvalid : c.toNat < 0xD800 ∨ 0xDFFF < c.toNat ∧ c.toNat < 0x110000 := c.valid
  have hhigh : isHighUnit c.toNat = false := by simp [isHighUnit]; omega
  have hlow : isLowUnit c.toNat = false := by simp [isLowUnit]; omega
  simp [unicodeEscape?, unit?_unitDigits h, hhigh, hlow, ofUnit]

/-- A pair of code units stands for one character. -/
theorem unicodeEscape?_pair {n m : Nat} (hn : n < 65536) (hm : m < 65536)
    (hhigh : isHighUnit n = true) (hlow : isLowUnit m = true) (rest : List Char) :
    unicodeEscape? (unitDigits n ++ (escapeUnit m ++ rest)) = some (ofPair n m, rest) := by
  simp [unicodeEscape?, escapeUnit_eq, unit?_unitDigits hn, unit?_unitDigits hm, hhigh, hlow]

theorem ofPair_halves {c : Char} (h : 0x10000 ≤ c.toNat) :
    ofPair (0xD800 + (c.toNat - 0x10000) / 0x400) (0xDC00 + (c.toNat - 0x10000) % 0x400) = c := by
  have hsum : 0x10000 + (0xD800 + (c.toNat - 0x10000) / 0x400 - 0xD800) * 0x400
      + (0xDC00 + (c.toNat - 0x10000) % 0x400 - 0xDC00) = c.toNat := by omega
  rw [ofPair, hsum, Char.ofNat_toNat]

/-- The four ways in which a character is written inside a string. -/
theorem escapeChar_cases (c : Char) :
    (∃ d, escapeChar c = ['\\', d] ∧ shortEscape? d = some c ∧
        d ∈ ['"', '\\', 'n', 'r', 't', 'b', 'f']) ∨
      (escapeChar c = [c] ∧ c ≠ '"' ∧ c ≠ '\\' ∧ 0x20 ≤ c.toNat ∧ c.toNat < 0x7F) ∨
      (escapeChar c = escapeUnit c.toNat ∧ c.toNat < 0x10000) ∨
      (escapeChar c = escapeUnit (0xD800 + (c.toNat - 0x10000) / 0x400)
          ++ escapeUnit (0xDC00 + (c.toNat - 0x10000) % 0x400) ∧ 0x10000 ≤ c.toNat) := by
  -- the characters that have an escape of two characters, then by size
  by_cases hshort : c ∈ ['"', '\\', '\n', '\r', '\t', '\x08', '\x0C']
  · left
    simp only [List.mem_cons, List.not_mem_nil, or_false] at hshort
    rcases hshort with rfl | rfl | rfl | rfl | rfl | rfl | rfl <;> exact ⟨_, rfl, rfl, by decide⟩
  · right
    simp only [List.mem_cons, List.not_mem_nil, or_false, not_or] at hshort
    obtain ⟨h₁, h₂, h₃, h₄, h₅, h₆, h₇⟩ := hshort
    simp only [escapeChar, h₁, h₂, h₃, h₄, h₅, h₆, h₇, if_false]
    by_cases hp : 0x20 ≤ c.toNat ∧ c.toNat < 0x7F
    · exact .inl ⟨if_pos hp, h₁, h₂, hp⟩
    · rw [if_neg hp]
      by_cases hu : c.toNat < 0x10000
      · exact .inr (.inl ⟨if_pos hu, hu⟩)
      · exact .inr (.inr ⟨if_neg hu, by omega⟩)

theorem stringChar?_escapeChar (c : Char) (rest : List Char) :
    stringChar? (escapeChar c ++ rest) = some (c, rest) := by
  rcases escapeChar_cases c with ⟨d, he, hd, hmem⟩ | ⟨he, -, hslash, hlow, -⟩ | ⟨he, hu⟩ | ⟨he, hu⟩
  · have hu : d = 'u' → False := by rintro rfl; simp at hmem
    rw [he, List.cons_append, List.cons_append, List.nil_append, stringChar?.eq_2 _ _ hu, hd]
    rfl
  · have : ¬ c.toNat < 0x20 := by omega
    simp [he, stringChar?, hslash, this]
  · rw [he]
    exact unicodeEscape?_unitDigits hu rest
  · have hvalid : c.toNat < 0xD800 ∨ 0xDFFF < c.toNat ∧ c.toNat < 0x110000 := c.valid
    rw [he, List.append_assoc]
    refine (unicodeEscape?_pair (by omega) (by omega) ?_ ?_ rest).trans ?_
    · simp [isHighUnit]; omega
    · simp [isLowUnit]; omega
    · rw [ofPair_halves hu]

/-- No escape is empty or begins with the quote that ends a string. -/
theorem escapeChar_eq_cons (c : Char) : ∃ d ds, escapeChar c = d :: ds ∧ d ≠ '"' := by
  rcases escapeChar_cases c with ⟨d, he, -⟩ | ⟨he, hquote, -⟩ | ⟨he, -⟩ | ⟨he, -⟩
  · exact ⟨_, _, he, by decide⟩
  · exact ⟨_, _, he, hquote⟩
  · exact ⟨_, _, he, by decide⟩
  · exact ⟨_, _, he, by decide⟩

/-! ### Strings -/

/-- A text between its quotes. -/
def quoted (s : String) : List Char := s.toList.flatMap escapeChar

theorem toList_quote (s : String) : (quote s).toList = '"' :: (quoted s ++ ['"']) := by
  simp [quote, quoted]

theorem stringTail_escaped (cs read rest : List Char) {fuel : Nat} (h : cs.length < fuel) :
    stringTail read fuel (cs.flatMap escapeChar ++ '"' :: rest)
      = .ok (String.ofList (read.reverse ++ cs), rest) := by
  induction cs generalizing read fuel with
  | nil =>
    obtain ⟨fuel, rfl⟩ := Nat.exists_eq_succ_of_ne_zero (Nat.ne_of_gt h)
    simp [stringTail]
  | cons c cs ih =>
    obtain ⟨fuel, rfl⟩ := Nat.exists_eq_succ_of_ne_zero (Nat.ne_of_gt (Nat.zero_lt_of_lt h))
    have hc := stringChar?_escapeChar c (cs.flatMap escapeChar ++ '"' :: rest)
    obtain ⟨d, ds, he, hd⟩ := escapeChar_eq_cons c
    rw [he, List.cons_append] at hc
    simp only [List.flatMap_cons, List.append_assoc, he, List.cons_append]
    rw [stringTail]
    · simp only [hc]
      rw [ih _ (by simpa using h)]
      simp
    · simp [hd]

theorem length_le_length_quoted (s : String) : s.toList.length ≤ (quoted s).length := by
  simp only [quoted, List.length_flatMap]
  induction s.toList with
  | nil => simp
  | cons c cs ih =>
    obtain ⟨d, ds, he, -⟩ := escapeChar_eq_cons c
    simp only [List.map_cons, List.sum_cons, List.length_cons, he]
    omega

/-- The reader takes a quoted text back, with the fuel that it gives itself. -/
theorem stringTail_quoted (s : String) (rest : List Char) :
    stringTail [] ((quoted s ++ '"' :: rest).length + 1) (quoted s ++ '"' :: rest)
      = .ok (s, rest) := by
  have := length_le_length_quoted s
  rw [quoted, stringTail_escaped]
  · simp
  · simp only [quoted] at this
    simp only [List.length_append]
    omega

/-! ### Words and numbers -/

/-- What may follow a value inside a document, or at its end. -/
def Stops (rest : List Char) : Prop := ∀ c ∈ rest.head?, c ∈ [',', ']', '\x7d']

/-- A document that is a word or a number, and comes back from its text. -/
def ReadsBack (j : Json) : Prop :=
  ∀ rest, Stops rest → scalar ((print j).toList ++ rest) = .ok (j, rest)

theorem readsBack_null : ReadsBack null := by
  intro rest _
  simp [scalar, print, word?]

/-- A text that a value can begin with where an item of an array may end the array. -/
def Begins (cs : List Char) : Prop :=
  ∃ c tail, cs = c :: tail ∧ isSpace c = false ∧ c ≠ ']' ∧ c ≠ '\x7d'

theorem Begins.skipSpace {cs : List Char} (h : Begins cs) : skipSpace cs = cs := by
  obtain ⟨c, tail, rfl, hc, -⟩ := h
  simp [Parser.skipSpace, hc]

theorem Begins.skipSpace_space {cs : List Char} (h : Begins cs) :
    Parser.skipSpace (' ' :: cs) = cs := h.skipSpace

theorem Begins.append {cs : List Char} (h : Begins cs) (rest : List Char) :
    Begins (cs ++ rest) := by
  obtain ⟨c, tail, rfl, hc⟩ := h
  exact ⟨c, tail ++ rest, rfl, hc⟩

theorem skipSpace_cons {c : Char} (h : isSpace c = false) (cs : List Char) :
    skipSpace (c :: cs) = c :: cs := by
  simp [skipSpace, h]

theorem skipSpace_space (cs : List Char) : skipSpace (' ' :: cs) = skipSpace cs := rfl

/-- The characters that no word and no number begins with. -/
theorem scalar_head {c : Char} {cs : List Char} {r : Json × List Char}
    (h : scalar (c :: cs) = .ok r) :
    isSpace c = false ∧ c ≠ ']' ∧ c ≠ '\x7d' ∧ c ≠ '"' ∧ c ≠ '[' ∧ c ≠ '\x7b' := by
  have hnot (d : Char) (hd : d ∈ [' ', '\t', '\n', '\r', ']', '\x7d', '"', '[', '\x7b']) :
      c ≠ d := by
    rintro rfl
    simp only [List.mem_cons, List.not_mem_nil, or_false] at hd
    rcases hd with rfl | rfl | rfl | rfl | rfl | rfl | rfl | rfl | rfl <;>
      simp [scalar, word?, number, unsigned, Number.isAsciiDigit, Number.asciiDigit?] at h
  simp [isSpace, hnot]

theorem scalar_nil (r : Json × List Char) : scalar [] ≠ .ok r := by
  simp [scalar, word?, number, unsigned]

theorem ReadsBack.begins {j : Json} (h : ReadsBack j) : Begins (print j).toList := by
  have h := h [] (by simp [Stops])
  rw [List.append_nil] at h
  cases hp : (print j).toList with
  | nil => exact absurd (hp ▸ h) (scalar_nil _)
  | cons c cs =>
    obtain ⟨h₁, h₂, h₃, -⟩ := scalar_head (hp ▸ h)
    exact ⟨c, cs, rfl, h₁, h₂, h₃⟩

theorem value_of_scalar {cs : List Char} {r : Json × List Char} (h : scalar cs = .ok r)
    (fuel : Nat) : value (fuel + 1) cs = .ok r := by
  cases cs with
  | nil => exact absurd h (scalar_nil r)
  | cons c cs =>
    obtain ⟨-, -, -, h₁, h₂, h₃⟩ := scalar_head h
    simp [value, h₁, h₂, h₃, h]

/-! ### Documents -/

/-- A document that is built from some words and numbers: with texts and arrays, and with objects
in which no key is repeated. -/
inductive BuiltFrom (leaf : Json → Prop) : Json → Prop where
  | leaf {j : Json} (h : leaf j) : BuiltFrom leaf j
  | text (s : String) : BuiltFrom leaf (.text s)
  | array {xs : List Json} (items : ∀ x ∈ xs, BuiltFrom leaf x) : BuiltFrom leaf (.array xs)
  | object {es : List (String × Json)} (nodup : (Entries.keys es).Nodup)
      (values : ∀ e ∈ es, BuiltFrom leaf e.2) : BuiltFrom leaf (.object es)

/-- The text of a document is taken back by the reader, with fuel for each of its characters. -/
def ValueBack (j : Json) : Prop :=
  ∀ fuel rest, Stops rest → (print j).toList.length ≤ fuel →
    value fuel ((print j).toList ++ rest) = .ok (j, rest)

theorem begins_print_array (xs : List Json) : Begins (print (.array xs)).toList := by
  cases xs with
  | nil => exact ⟨'[', [']'], by simp [print], by decide⟩
  | cons x xs =>
    exact ⟨'[', (print x).toList ++ ((printItems xs).toList ++ [']']), by simp [print], by decide⟩

theorem begins_print_object (es : List (String × Json)) : Begins (print (.object es)).toList := by
  cases es with
  | nil => exact ⟨'\x7b', ['\x7d'], by simp [print], by decide⟩
  | cons e es =>
    exact ⟨'\x7b', (quote e.1).toList ++ (':' :: ' ' :: ((print e.2).toList
      ++ ((printEntries es).toList ++ ['\x7d']))), by simp [print], by decide⟩

theorem BuiltFrom.begins {leaf : Json → Prop} (hleaf : ∀ j, leaf j → ReadsBack j) {j : Json}
    (h : BuiltFrom leaf j) : Begins (print j).toList := by
  cases h with
  | leaf h => exact (hleaf _ h).begins
  | text s => exact ⟨_, _, by rw [print, toList_quote], by decide⟩
  | array => exact begins_print_array _
  | object => exact begins_print_object _

theorem stops_printItems (xs : List Json) (rest : List Char) :
    Stops ((printItems xs).toList ++ ']' :: rest) := by
  cases xs <;> simp [Stops, printItems]

theorem stops_printEntries (es : List (String × Json)) (rest : List Char) :
    Stops ((printEntries es).toList ++ '\x7d' :: rest) := by
  cases es <;> simp [Stops, printEntries]

/-- The items of an array are taken back one after the other. -/
theorem items_print {xs : List Json} (hxs : ∀ x ∈ xs, Begins (print x).toList ∧ ValueBack x)
    {x : Json} (hx : ValueBack x) (rest : List Char) {fuel : Nat}
    (h : (print x).toList.length + (printItems xs).toList.length < fuel) :
    items fuel ((print x).toList ++ ((printItems xs).toList ++ ']' :: rest))
      = .ok (x :: xs, rest) := by
  induction xs generalizing x fuel with
  | nil =>
    obtain ⟨fuel, rfl⟩ := Nat.exists_eq_succ_of_ne_zero (Nat.ne_of_gt (Nat.zero_lt_of_lt h))
    rw [items, hx fuel _ (stops_printItems [] rest) (by omega)]
    simp [printItems, skipSpace, isSpace]
  | cons y ys ih =>
    obtain ⟨fuel, rfl⟩ := Nat.exists_eq_succ_of_ne_zero (Nat.ne_of_gt (Nat.zero_lt_of_lt h))
    have hsep : (printItems (y :: ys)).toList ++ ']' :: rest
        = ',' :: ' ' :: ((print y).toList ++ ((printItems ys).toList ++ ']' :: rest)) := by
      simp [printItems]
    have hlength : (printItems (y :: ys)).toList.length
        = 2 + (print y).toList.length + (printItems ys).toList.length := by
      simp [printItems]; omega
    obtain ⟨hbegins, hy⟩ := hxs y (by simp)
    have hys : items fuel ((print y).toList ++ ((printItems ys).toList ++ ']' :: rest))
        = .ok (y :: ys, rest) :=
      ih (fun x hx => hxs x (by simp [hx])) hy (by omega)
    -- the item, its comma and space, then the items after it
    rw [items, hx fuel _ (stops_printItems _ rest) (by omega), hsep]
    simp only [skipSpace_cons (show isSpace ',' = false by decide),
      (hbegins.append _).skipSpace_space, hys]

/-- The entries of an object are taken back one after the other. -/
theorem entries_print {es : List (String × Json)}
    (hes : ∀ e ∈ es, Begins (print e.2).toList ∧ ValueBack e.2) {k : String} {v : Json}
    (hv : Begins (print v).toList ∧ ValueBack v) (rest : List Char) {fuel : Nat}
    (h : (print v).toList.length + (printEntries es).toList.length < fuel) :
    entries fuel ('"' :: (quoted k ++ '"' :: ':' :: ' ' :: ((print v).toList
        ++ ((printEntries es).toList ++ '\x7d' :: rest))))
      = .ok ((k, v) :: es, rest) := by
  induction es generalizing k v fuel with
  | nil =>
    obtain ⟨fuel, rfl⟩ := Nat.exists_eq_succ_of_ne_zero (Nat.ne_of_gt (Nat.zero_lt_of_lt h))
    rw [entries]
    simp only [stringTail_quoted, skipSpace_cons (show isSpace ':' = false by decide),
      (hv.1.append _).skipSpace_space, hv.2 fuel _ (stops_printEntries [] rest) (by omega)]
    simp [printEntries, skipSpace, isSpace]
  | cons e es ih =>
    obtain ⟨fuel, rfl⟩ := Nat.exists_eq_succ_of_ne_zero (Nat.ne_of_gt (Nat.zero_lt_of_lt h))
    obtain ⟨k', v'⟩ := e
    have hsep : (printEntries ((k', v') :: es)).toList ++ '\x7d' :: rest
        = ',' :: ' ' :: '"' :: (quoted k' ++ '"' :: ':' :: ' ' :: ((print v').toList
          ++ ((printEntries es).toList ++ '\x7d' :: rest))) := by
      simp [printEntries, toList_quote]
    have hlength : 2 + (print v').toList.length + (printEntries es).toList.length
        ≤ (printEntries ((k', v') :: es)).toList.length := by
      simp [printEntries]; omega
    have hrest : entries fuel ('"' :: (quoted k' ++ '"' :: ':' :: ' ' :: ((print v').toList
        ++ ((printEntries es).toList ++ '\x7d' :: rest)))) = .ok ((k', v') :: es, rest) :=
      ih (fun e he => hes e (by simp [he])) (hes (k', v') (by simp)) (by simp only; omega)
    rw [entries]
    simp only [stringTail_quoted, skipSpace_cons (show isSpace ':' = false by decide),
      (hv.1.append _).skipSpace_space, hv.2 fuel _ (stops_printEntries _ rest) (by omega)]
    simp only [hsep, skipSpace_cons (show isSpace ',' = false by decide), skipSpace_space,
      skipSpace_cons (show isSpace '"' = false by decide), hrest]

theorem value_text (s : String) (fuel : Nat) (rest : List Char) :
    value (fuel + 1) ((print (.text s)).toList ++ rest) = .ok (.text s, rest) := by
  simp only [print, toList_quote, List.cons_append, List.append_assoc, List.nil_append, value,
    stringTail_quoted]

theorem value_array {x : Json} {xs : List Json} (hx : Begins (print x).toList) {fuel : Nat}
    {rest : List Char}
    (h : items fuel ((print x).toList ++ ((printItems xs).toList ++ ']' :: rest))
      = .ok (x :: xs, rest)) :
    value (fuel + 1) ((print (.array (x :: xs))).toList ++ rest)
      = .ok (.array (x :: xs), rest) := by
  have htext : (print (.array (x :: xs))).toList ++ rest
      = '[' :: ((print x).toList ++ ((printItems xs).toList ++ ']' :: rest)) := by
    simp [print]
  have hskip := (hx.append ((printItems xs).toList ++ ']' :: rest)).skipSpace
  obtain ⟨c, tail, hcons, -, hc, -⟩ := hx.append ((printItems xs).toList ++ ']' :: rest)
  -- the array is not empty, since no value begins with the bracket that ends one
  rw [htext, value, hskip]
  rw [hcons] at h ⊢
  split
  · next he => exact absurd (List.cons.inj he).1 hc
  · rw [h]

theorem value_object {e : String × Json} {es : List (String × Json)} {fuel : Nat}
    {rest : List Char} (hnodup : (Entries.keys (e :: es)).Nodup)
    (h : entries fuel ('"' :: (quoted e.1 ++ '"' :: ':' :: ' ' :: ((print e.2).toList
        ++ ((printEntries es).toList ++ '\x7d' :: rest)))) = .ok (e :: es, rest)) :
    value (fuel + 1) ((print (.object (e :: es))).toList ++ rest)
      = .ok (.object (e :: es), rest) := by
  have htext : (print (.object (e :: es))).toList ++ rest
      = '\x7b' :: '"' :: (quoted e.1 ++ '"' :: ':' :: ' ' :: ((print e.2).toList
        ++ ((printEntries es).toList ++ '\x7d' :: rest))) := by
    simp [print, toList_quote]
  rw [htext, value, skipSpace_cons (show isSpace '"' = false by decide)]
  split
  · next he => simp at he
  · rw [h]
    simp only [Entries.ofList_of_nodup hnodup]

theorem ValueBack.of_succ {j : Json} (hbegins : Begins (print j).toList)
    (h : ∀ fuel rest, Stops rest → (print j).toList.length ≤ fuel + 1 →
      value (fuel + 1) ((print j).toList ++ rest) = .ok (j, rest)) : ValueBack j := by
  intro fuel rest hstops hfuel
  obtain ⟨c, tail, hcons, -⟩ := hbegins
  obtain ⟨fuel, rfl⟩ := Nat.exists_eq_succ_of_ne_zero (n := fuel) (by simp [hcons] at hfuel; omega)
  exact h fuel rest hstops hfuel

/-- A document is taken back whatever may follow it. The induction is on how it is built, and the
fuel is counted by the characters that are left. -/
theorem BuiltFrom.valueBack {leaf : Json → Prop} (hleaf : ∀ j, leaf j → ReadsBack j) {j : Json}
    (h : BuiltFrom leaf j) : ValueBack j := by
  induction h with
  | @leaf j h =>
    exact .of_succ (hleaf j h).begins fun fuel rest hstops _ =>
      value_of_scalar (hleaf j h rest hstops) fuel
  | text s =>
    exact .of_succ ((BuiltFrom.text s).begins hleaf) fun fuel rest _ _ => value_text s fuel rest
  | @array xs hxs ih =>
    refine .of_succ (begins_print_array xs) fun fuel rest _ hfuel => ?_
    cases xs with
    | nil => simp [print, value, skipSpace, isSpace]
    | cons x xs =>
      have hback : ∀ y ∈ x :: xs, Begins (print y).toList ∧ ValueBack y :=
        fun y hy => ⟨(hxs y hy).begins hleaf, ih y hy⟩
      refine value_array (hback x (by simp)).1
        (items_print (fun y hy => hback y (by simp [hy])) (hback x (by simp)).2 rest ?_)
      simp [print] at hfuel
      omega
  | @object es hnodup hes ih =>
    refine .of_succ (begins_print_object es) fun fuel rest _ hfuel => ?_
    cases es with
    | nil => simp [print, value, skipSpace, isSpace]
    | cons e es =>
      have hback : ∀ e' ∈ e :: es, Begins (print e'.2).toList ∧ ValueBack e'.2 :=
        fun e' he' => ⟨(hes e' he').begins hleaf, ih e' he'⟩
      refine value_object hnodup
        (entries_print (fun e' he' => hback e' (by simp [he'])) (hback e (by simp)) rest ?_)
      simp [print] at hfuel
      omega

/-- A document comes back from its text if the words and numbers in it do. -/
theorem parse_print {leaf : Json → Prop} (hleaf : ∀ j, leaf j → ReadsBack j) {j : Json}
    (h : BuiltFrom leaf j) : parse (print j) = .ok j := by
  have hback := h.valueBack hleaf (2 * (print j).toList.length + 1) [] (by simp [Stops]) (by omega)
  rw [List.append_nil] at hback
  simp only [parse, (h.begins hleaf).skipSpace, hback]
  rfl

/-! ### Bytes -/

/-- A text of visible ASCII characters and spaces. -/
def Visible (cs : List Char) : Prop := ∀ c ∈ cs, 0x20 ≤ c.toNat ∧ c.toNat < 0x7F

instance (cs : List Char) : Decidable (Visible cs) := List.decidableBAll _ cs

theorem visible_cons {c : Char} {cs : List Char} :
    Visible (c :: cs) ↔ (0x20 ≤ c.toNat ∧ c.toNat < 0x7F) ∧ Visible cs := List.forall_mem_cons

theorem visible_append {cs ds : List Char} : Visible (cs ++ ds) ↔ Visible cs ∧ Visible ds :=
  List.forall_mem_append

theorem visible_hexChar {n : Nat} (h : n < 16) :
    0x20 ≤ (hexChar n).toNat ∧ (hexChar n).toNat < 0x7F := by
  have all : ∀ n < 16, 0x20 ≤ (hexChar n).toNat ∧ (hexChar n).toNat < 0x7F := by decide
  exact all n h

theorem visible_escapeUnit (n : Nat) : Visible (escapeUnit n) := by
  intro c hc
  simp only [escapeUnit, List.mem_cons, List.not_mem_nil, or_false] at hc
  rcases hc with rfl | rfl | rfl | rfl | rfl | rfl
  · decide
  · decide
  all_goals exact visible_hexChar (Nat.mod_lt _ (by decide))

theorem visible_escapeChar (c : Char) : Visible (escapeChar c) := by
  rcases escapeChar_cases c with ⟨d, he, -, hd⟩ | ⟨he, -, -, hvisible⟩ | ⟨he, -⟩ | ⟨he, -⟩
  · rw [he]
    simp only [List.mem_cons, List.not_mem_nil, or_false] at hd
    rcases hd with rfl | rfl | rfl | rfl | rfl | rfl | rfl <;> simp [Visible]
  · simpa [he, Visible] using hvisible
  · rw [he]
    exact visible_escapeUnit _
  · rw [he]
    exact visible_append.2 ⟨visible_escapeUnit _, visible_escapeUnit _⟩

theorem visible_quote (s : String) : Visible (quote s).toList := by
  have hquoted : Visible (quoted s) := by
    intro c hc
    obtain ⟨d, -, hd⟩ := List.mem_flatMap.1 hc
    exact visible_escapeChar d c hd
  intro c hc
  simp only [toList_quote, List.mem_cons, List.mem_append, List.not_mem_nil, or_false] at hc
  rcases hc with rfl | hc | rfl
  · decide
  · exact hquoted c hc
  · decide

theorem visible_printItems {xs : List Json} (h : ∀ x ∈ xs, Visible (print x).toList) :
    Visible (printItems xs).toList := by
  induction xs with
  | nil => simp [printItems, Visible]
  | cons x xs ih =>
    simp only [printItems, String.toList_append, visible_append]
    exact ⟨⟨by simp [Visible], h x (by simp)⟩, ih fun y hy => h y (by simp [hy])⟩

theorem visible_printEntries {es : List (String × Json)}
    (h : ∀ e ∈ es, Visible (print e.2).toList) : Visible (printEntries es).toList := by
  induction es with
  | nil => simp [printEntries, Visible]
  | cons e es ih =>
    simp only [printEntries, String.toList_append, visible_append]
    exact ⟨⟨⟨⟨by simp [Visible], visible_quote _⟩, by simp [Visible]⟩, h e (by simp)⟩,
      ih fun e' he => h e' (by simp [he])⟩

/-- The text of a document is visible if the words and numbers in it are. -/
theorem BuiltFrom.visible {leaf : Json → Prop} (hleaf : ∀ j, leaf j → Visible (print j).toList)
    {j : Json} (h : BuiltFrom leaf j) : Visible (print j).toList := by
  induction h with
  | @leaf j h => exact hleaf j h
  | text s => rw [print]; exact visible_quote s
  | @array xs _ ih =>
    cases xs with
    | nil => simp [print, Visible]
    | cons x xs =>
      simp only [print, String.toList_append, visible_append]
      exact ⟨⟨⟨by simp [Visible], ih x (by simp)⟩,
        visible_printItems fun y hy => ih y (by simp [hy])⟩, by simp [Visible]⟩
  | @object es _ _ ih =>
    cases es with
    | nil => simp [print, Visible]
    | cons e es =>
      simp only [print, String.toList_append, visible_append]
      exact ⟨⟨⟨⟨⟨by simp [Visible], visible_quote _⟩, by simp [Visible]⟩, ih e (by simp)⟩,
        visible_printEntries fun e' he => ih e' (by simp [he])⟩, by simp [Visible]⟩

/-- The bytes of a visible text are its characters one by one. -/
theorem encode_of_visible {cs : List Char} (h : Visible cs) :
    Text.Utf8.encode cs = cs.map fun c => UInt8.ofNat c.toNat := by
  induction cs with
  | nil => rfl
  | cons c cs ih =>
    have hc : String.utf8EncodeChar c = [UInt8.ofNat c.toNat] :=
      if_pos (Nat.le_of_lt (h c (by simp)).2)
    rw [Text.Utf8.encode, List.flatMap_cons, ← Text.Utf8.encode,
      ih fun d hd => h d (by simp [hd]), hc]
    rfl

theorem toNat_ofNat_of_visible {c : Char} (h : c.toNat < 0x7F) :
    (UInt8.ofNat c.toNat).toNat = c.toNat := by
  rw [UInt8.toNat_ofNat']
  omega

theorem parts_of_visible {cs : List Char} (h : Visible cs) :
    Text.Utf8.parts true (cs.map fun c => UInt8.ofNat c.toNat) = cs.map some := by
  induction cs with
  | nil => rw [List.map_nil, Text.Utf8.parts]; rfl
  | cons c cs ih =>
    have hc := (h c (by simp)).2
    have hlead : Text.Utf8.lead? true c.toNat = some { bits := c.toNat, owed := 0 } :=
      if_pos (by omega)
    have hchar : Text.Utf8.charOf c.toNat = c := by
      rw [Text.Utf8.charOf, if_neg (by omega), Char.ofNat_toNat]
    simp only [List.map_cons, Text.Utf8.parts, Text.Utf8.afterFirst, toNat_ofNat_of_visible hc,
      hlead, Text.Utf8.tail, hchar, ih fun d hd => h d (by simp [hd])]

/-- Bytes of visible text have no byte order mark, and are not taken for a wider encoding. -/
theorem decodeDocument?_of_visible {cs : List Char} (h : Visible cs) :
    Text.decodeDocument? (Text.Utf8.encode cs) = some cs := by
  rw [encode_of_visible h]
  have hbytes : ∀ b ∈ cs.map fun c => UInt8.ofNat c.toNat, 0x20 ≤ b.toNat ∧ b.toNat < 0x7F := by
    intro b hb
    obtain ⟨c, hc, rfl⟩ := List.mem_map.1 hb
    rw [toNat_ofNat_of_visible (h c hc).2]
    exact h c hc
  have hdecode : Text.Encoding.utf8.decode? (cs.map fun c => UInt8.ofNat c.toNat) = some cs := by
    have hall : ∀ ds : List Char, (ds.map some).mapM id = some ds := fun ds => by
      simpa using List.mapM_pure (m := Option) (l := ds) (f := id)
    simp only [Text.Encoding.decode?, Text.Utf8.decode?, parts_of_visible h, hall]
  generalize cs.map (fun c => UInt8.ofNat c.toNat) = bs at hbytes hdecode
  -- a mark has a byte that is no ASCII, and a wider encoding would show in a zero byte
  have hmarked : Text.Encoding.marked? bs = none := by
    unfold Text.Encoding.marked?
    split <;> simp_all
  have hzero : ∀ b ∈ bs, b ≠ 0 := by
    rintro b hb rfl
    exact absurd (hbytes 0 hb).1 (by decide)
  have hguess : Text.Encoding.guess bs = .utf8 := by
    unfold Text.Encoding.guess
    split <;> simp_all
  rw [Text.decodeDocument?, hmarked, hguess]
  exact hdecode

/-- A document comes back from its bytes if the words and numbers in it do. -/
theorem ofBytes_print {leaf : Json → Prop}
    (hleaf : ∀ j, leaf j → ReadsBack j ∧ Visible (print j).toList) {j : Json}
    (h : BuiltFrom leaf j) : ofBytes (Text.Utf8.encode (print j).toList) = .ok j := by
  rw [ofBytes, decodeDocument?_of_visible (h.visible fun j hj => (hleaf j hj).2)]
  simp only [String.ofList_toList, parse_print (fun j hj => (hleaf j hj).1) h]
  rfl

end DeferredSave.Json
