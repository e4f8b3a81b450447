import RemoteInspector.Proofs.Transport.Framing
/-!
What a reader takes from a stream of bytes it knows nothing of: a packet is the JSON value of the bytes behind a length,
as many as the length says or as many as there are.
-/
namespace RemoteInspector.Framing

variable {bytes rest : Bytes} {n : Nat} {packet : Json}

/-! ### Blanks around a text -/

theorem trim_parts (s : String) : ∃ before after : List Char,
    s.toList = before ++ (Text.trim s).toList ++ after ∧ before.all Text.isBlank ∧ after.all Text.isBlank := by
  let core := s.toList.dropWhile Text.isBlank
  refine ⟨s.toList.takeWhile Text.isBlank, (core.reverse.takeWhile Text.isBlank).reverse, ?_, List.all_takeWhile, ?_⟩
  · have back : (core.reverse.dropWhile Text.isBlank).reverse ++ (core.reverse.takeWhile Text.isBlank).reverse = core := by
      rw [← List.reverse_append, List.takeWhile_append_dropWhile, List.reverse_reverse]
    rw [Text.trim, String.toList_ofList, List.append_assoc, back, List.takeWhile_append_dropWhile]
  · rw [List.all_reverse]
    exact List.all_takeWhile

/-- A text that neither begins nor ends with a blank. -/
def Edged (core : List Char) : Prop := ∀ c, core.head? = some c ∨ core.getLast? = some c → Text.isBlank c = false

theorem dropWhile_blank {before core : List Char} (blank : before.all Text.isBlank)
    (first : ∀ c, core.head? = some c → Text.isBlank c = false) : (before ++ core).dropWhile Text.isBlank = core := by
  rw [List.dropWhile_append_of_pos (List.all_eq_true.mp blank)]
  cases core with
  | nil => rfl
  | cons c cs => rw [List.dropWhile_cons, first c rfl]; rfl

theorem trim_of_parts {before core after : List Char} (start : before.all Text.isBlank) (stop : after.all Text.isBlank)
    (edged : Edged core) (some : core ≠ []) : (Text.trim (String.ofList (before ++ core ++ after))).toList = core := by
  rw [Text.trim, String.toList_ofList, String.toList_ofList, List.append_assoc, dropWhile_blank start, List.reverse_append,
    dropWhile_blank (by rwa [List.all_reverse]), List.reverse_reverse]
  · intro c last
    rw [List.head?_reverse] at last
    exact edged c (.inr last)
  · intro c first
    obtain ⟨d, ds, rfl⟩ := List.exists_cons_of_ne_nil some
    exact edged c (.inl first)

/-! ### Lengths -/

/-- The bytes of a length: the digits of a number of at most 64 bits, with a plus sign before them or none, between
blanks. -/
structure Denotes (bytes : Bytes) (n : Nat) : Prop where
  fits : n < UInt64.size
  written : ∃ before sign digits after : List Char, bytes = utf8 (String.ofList (before ++ (sign ++ digits) ++ after)) ∧
    before.all Text.isBlank ∧ after.all Text.isBlank ∧ (sign = [] ∨ sign = ['+']) ∧
    digits ≠ [] ∧ digits.all Char.isDigit ∧ Nat.ofDigitChars 10 digits 0 = n

theorem edged_of_digits {sign digits : List Char} (plus : sign = [] ∨ sign = ['+']) (some : digits ≠ [])
    (all : digits.all Char.isDigit) : Edged (sign ++ digits) := by
  have digit {c : Char} (inside : c ∈ digits) := isBlank_of_isDigit (List.all_eq_true.mp all c inside)
  rintro c (first | last)
  · obtain rfl | rfl := plus
    · exact digit (List.mem_of_mem_head? first)
    · cases first
      rfl
  · obtain ⟨d, is⟩ := Option.isSome_iff_exists.mp (List.getLast?_isSome.mpr some)
    rw [List.getLast?_append, is, Option.some_or, ← is] at last
    exact digit (List.mem_of_mem_getLast? last)

def unsigned : List Char → List Char
  | '+' :: rest => rest
  | cs => cs

theorem unsigned_parts (cs : List Char) : ∃ sign, cs = sign ++ unsigned cs ∧ (sign = [] ∨ sign = ['+']) := by
  unfold unsigned
  split
  · exact ⟨['+'], rfl, .inr rfl⟩
  · exact ⟨[], rfl, .inl rfl⟩

theorem unsigned_of_parts {sign digits : List Char} (plus : sign = [] ∨ sign = ['+'])
    (all : digits.all Char.isDigit) : unsigned (sign ++ digits) = digits := by
  obtain rfl | rfl := plus
  · unfold unsigned
    split
    · rename_i same
      rw [List.nil_append] at same
      rw [same] at all
      cases all
    · rfl
  · rfl

theorem length?_eq (bytes : Bytes) : length? bytes = (text? bytes).bind fun text =>
    let digits := unsigned (Text.trim text).toList
    if digits.isEmpty || !digits.all Char.isDigit then none
    else if decimal digits < UInt64.size then some (decimal digits) else none := by
  refine congrArg (Option.bind (text? bytes)) (funext fun text => ?_)
  dsimp only
  split
  · rename_i signed
    rw [signed]
    rfl
  · rename_i bare
    rw [unsigned.eq_2 _ bare]

theorem decimal_eq (digits : List Char) : decimal digits = Nat.ofDigitChars 10 digits 0 :=
  Nat.ofDigitChars_eq_foldl.symm

theorem length?_eq_some_iff : length? bytes = some n ↔ Denotes bytes n := by
  rw [length?_eq]
  constructor
  · intro read
    obtain ⟨s, text, length⟩ := Option.bind_eq_some_iff.mp read
    obtain ⟨before, after, parts, start, stop⟩ := trim_parts s
    obtain ⟨sign, split, plus⟩ := unsigned_parts (Text.trim s).toList
    have said : bytes = utf8 (String.ofList (before ++ (sign ++ unsigned (Text.trim s).toList) ++ after)) := by
      rw [← split, ← parts, String.ofList_toList]
      exact eq_utf8_of_text? text
    dsimp only at length
    split_ifs at length with improper fits
    rw [Bool.or_eq_true, not_or, List.isEmpty_iff, Bool.not_eq_true', Bool.not_eq_false] at improper
    rw [Option.some.injEq, decimal_eq] at length
    rw [decimal_eq, length] at fits
    exact ⟨fits, before, sign, _, after, said, start, stop, plus, improper.1, improper.2, length⟩
  · rintro ⟨fits, before, sign, digits, after, rfl, start, stop, plus, some, all, value⟩
    have core := trim_of_parts start stop (edged_of_digits plus some all) (by simp [some])
    rw [text?_utf8, Option.bind_some]
    dsimp only
    rw [core, unsigned_of_parts plus all, decimal_eq, value, if_pos fits, if_neg]
    simpa [some] using all

/-! ### Frames -/

/-- What is left of a stream after some readings. -/
def unread (stream : Bytes) : Nat → Bytes
  | 0 => stream
  | calls + 1 => (next (unread stream calls)).2

theorem parse_eq_packet_iff : parse bytes = .packet packet ↔ ∃ text, bytes = utf8 text ∧ Json.parse text = .ok packet := by
  unfold parse
  constructor
  · intro read
    split at read
    · cases read
    · rename_i s text
      split at read
      · cases read
        exact ⟨s, eq_utf8_of_text? text, by assumption⟩
      · cases read
  · rintro ⟨text, rfl, value⟩
    rw [text?_utf8]
    dsimp only
    rw [value]

theorem next_eq_packet_iff : next bytes = (.packet packet, rest) ↔ ∃ head body n text,
    bytes = head ++ colon :: (body ++ rest) ∧ colon ∉ head ∧ Denotes head n ∧
    (body.length = n ∨ body.length < n ∧ rest = []) ∧ body = utf8 text ∧ Json.parse text = .ok packet := by
  constructor
  · intro read
    by_cases inside : colon ∈ bytes
    · obtain ⟨head, tail, rfl, plain⟩ := List.eq_append_cons_of_mem inside
      rw [next_at plain] at read
      cases length : length? head with
      | none => rw [length] at read; cases read
      | some n =>
        rw [length, Prod.mk.injEq] at read
        obtain ⟨text, body, value⟩ := parse_eq_packet_iff.mp read.1
        refine ⟨head, tail.take n, n, text, ?_, plain, length?_eq_some_iff.mp length, ?_, body, value⟩
        · rw [← read.2, List.take_append_drop]
        · by_cases enough : n ≤ tail.length
          · exact .inl (List.length_take_of_le enough)
          · refine .inr ⟨?_, ?_⟩
            · rw [List.length_take]
              omega
            · rw [← read.2, List.drop_of_length_le (by omega)]
    · rw [next_of_plain inside] at read
      cases read
  · rintro ⟨head, body, n, text, rfl, plain, said, size, written, value⟩
    have body : (body ++ rest).take n = body ∧ (body ++ rest).drop n = rest := by
      obtain rfl | ⟨short, rfl⟩ := size
      · exact ⟨List.take_left, List.drop_left⟩
      · rw [List.append_nil]
        exact ⟨List.take_of_length_le (by omega), List.drop_of_length_le (by omega)⟩
    rw [next_of_length plain (length?_eq_some_iff.mpr said), body.1, body.2,
      parse_eq_packet_iff.mpr ⟨text, written, value⟩]

theorem next_suffix (bytes : Bytes) : (next bytes).2 <:+ bytes := by
  by_cases inside : colon ∈ bytes
  · obtain ⟨head, tail, rfl, plain⟩ := List.eq_append_cons_of_mem inside
    have behind : tail <:+ head ++ colon :: tail := ⟨head ++ [colon], by simp⟩
    rw [next_at plain]
    split
    · exact behind
    · exact (List.drop_suffix _ _).trans behind
  · rw [next_of_plain inside]
    exact List.nil_suffix

theorem unread_suffix (stream : Bytes) (calls : Nat) : unread stream calls <:+ stream := by
  induction calls with
  | zero => exact List.suffix_refl _
  | succ calls ih => exact (next_suffix _).trans ih

/-- What a call reads from a stream, whatever was read before: a packet exactly if a length, a colon and the text of that
packet come next. The text takes as many bytes as the length says, or fewer if the stream ends with it. -/
theorem packets_behind_lengths (stream : Bytes) (calls : Nat) : unread stream calls <:+ stream ∧
    ∀ packet rest, next (unread stream calls) = (.packet packet, rest) ↔ ∃ head body n text,
      unread stream calls = head ++ colon :: (body ++ rest) ∧ colon ∉ head ∧ Denotes head n ∧
      (body.length = n ∨ body.length < n ∧ rest = []) ∧ body = utf8 text ∧ Json.parse text = .ok packet :=
  ⟨unread_suffix stream calls, fun _ _ => next_eq_packet_iff⟩

/-- Five bytes are announced and two come before the end: these two are read as a packet. -/
theorem cut_number_read : next (utf8 "5:12") = (.packet (.num (.int 12)), []) ∧
    ∀ head body n, utf8 "5:12" = head ++ colon :: body → colon ∉ head → Denotes head n → body.length < n := by
  have stream : utf8 "5:12" = utf8 (toString 5) ++ colon :: utf8 (toString 12) := by decide +kernel
  have five : length? (utf8 (toString 5)) = some 5 := length?_utf8 (by decide)
  have twelve : parse (utf8 (toString 12)) = .packet (.num (.int 12)) := parse_eq_packet_iff.mpr ⟨toString 12, rfl, rfl⟩
  have short : (utf8 (toString 12)).take 5 = utf8 (toString 12) ∧ (utf8 (toString 12)).drop 5 = [] := by
    decide +kernel
  refine ⟨?_, fun head body n split plain said => ?_⟩
  · rw [stream, next_of_length (colon_notMem 5) five, short.1, short.2, twelve]
  · have bytes : utf8 "5:12" = [53, 58, 49, 50] := by decide +kernel
    rw [bytes, colon] at split
    cases head with
    | nil => cases split
    | cons b head =>
      obtain ⟨rfl, rest⟩ := List.cons_eq_cons.mp split
      cases head with
      | nil =>
        obtain ⟨-, rfl⟩ := List.cons_eq_cons.mp rest
        have length : length? [53] = some 5 := (show utf8 (toString 5) = [53] by decide +kernel) ▸ five
        cases length.symm.trans (length?_eq_some_iff.mpr said)
        decide
      | cons b head =>
        obtain ⟨rfl, -⟩ := List.cons_eq_cons.mp rest
        exact absurd (List.mem_cons_of_mem _ List.mem_cons_self) plain

end RemoteInspector.Framing
