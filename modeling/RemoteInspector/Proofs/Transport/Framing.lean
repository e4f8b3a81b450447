import RemoteInspector.Proofs.Json.Prefixes
import RemoteInspector.Proofs.Registry.Names
import RemoteInspector.Transport.Framing
/-!
Packets in a stream of bytes that may be cut off anywhere: every packet whose frame has arrived is read as it was
sent.
-/
namespace RemoteInspector.Framing

variable {s : String} {n : Nat}

/-! ### Texts as bytes -/

theorem toList_loop (bytes : ByteArray) (i : Nat) (acc : List UInt8) :
    ByteArray.toList.loop bytes i acc = acc.reverse ++ bytes.data.toList.drop i := by
  fun_induction ByteArray.toList.loop bytes i acc with
  | case1 i acc inside ih =>
    have bound : i < bytes.data.toList.length := inside
    rw [ih, List.drop_eq_getElem_cons bound]
    simp [ByteArray.get!, inside]
  | case2 i acc outside =>
    rw [List.drop_eq_nil_of_le (Nat.le_of_not_lt outside)]
    simp

theorem utf8_eq (s : String) : utf8 s = s.toByteArray.data.toList := by
  unfold utf8 ByteArray.toList
  rw [toList_loop]
  rfl

theorem utf8_flatMap (s : String) : utf8 s = s.toList.flatMap String.utf8EncodeChar := by
  rw [utf8_eq, ← String.utf8Encode_toList, List.utf8Encode, List.toList_data_toByteArray]

theorem text?_utf8 (s : String) : text? (utf8 s) = some s := by
  have bytes : (⟨(utf8 s).toArray⟩ : ByteArray) = s.toByteArray := by
    rw [utf8_eq]
  unfold text? String.fromUTF8?
  rw [bytes, dif_pos s.isValidUTF8]
  rfl

theorem eq_utf8_of_text? {bytes : Bytes} (read : text? bytes = some s) : bytes = utf8 s := by
  unfold text? String.fromUTF8? at read
  split at read
  · cases read
    rw [utf8_eq]
    rfl
  · cases read

theorem toList_prefix_of_utf8 {t : String} {more : Bytes} (bytes : utf8 s ++ more = utf8 t) :
    s.toList <+: t.toList := by
  apply List.isPrefix_of_utf8Encode_append_eq_utf8Encode ⟨more.toArray⟩
  rw [String.utf8Encode_toList, String.utf8Encode_toList]
  apply ByteArray.ext
  apply Array.toList_inj.mp
  rw [utf8_eq, utf8_eq] at bytes
  simpa using bytes

/-! ### Lengths -/

theorem digit_range {c : Char} (digit : c.isDigit) : 48 ≤ c.toNat ∧ c.toNat ≤ 57 := by
  simpa [Char.isDigit, UInt32.le_iff_toNat_le] using digit

theorem isBlank_of_isDigit {c : Char} (digit : c.isDigit) : Text.isBlank c = false := by
  have low := digit_range digit
  simp only [Text.isBlank, Text.blankRanges, List.any_cons, List.any_nil, Bool.or_eq_false_iff,
    Bool.and_eq_false_iff, decide_eq_false_iff_not, and_true]
  omega

theorem trim_of_digits (digits : ∀ c ∈ s.toList, c.isDigit) : Text.trim s = s := by
  have stays {cs : List Char} (all : ∀ c ∈ cs, c.isDigit) : cs.dropWhile Text.isBlank = cs := by
    cases cs with
    | nil => rfl
    | cons c cs => rw [List.dropWhile_cons, isBlank_of_isDigit (all c List.mem_cons_self)]; rfl
  unfold Text.trim
  rw [stays digits, stays (fun c inside => digits c (List.mem_reverse.mp inside)), List.reverse_reverse,
    String.ofList_toList]

theorem decimal_toString (n : Nat) : decimal (toString n).toList = n := by
  have digits : (toString n).toList = Nat.toDigits 10 n := by
    change (Nat.repr n).toList = _
    rw [Nat.repr_eq_ofList_toDigits, String.toList_ofList]
  rw [digits]
  exact (Nat.ofDigitChars_eq_foldl).symm.trans Nat.ofDigitChars_ten_toDigits

theorem length?_utf8 (fits : n < UInt64.size) : length? (utf8 (toString n)) = some n := by
  have digits : ∀ c ∈ (toString n).toList, c.isDigit := fun c inside => Registry.isDigit_of_mem_toString inside
  have value := decimal_toString n
  unfold length?
  rw [text?_utf8]
  simp only [Option.bind_eq_bind, Option.bind_some, trim_of_digits digits]
  cases list : (toString n).toList with
  | nil =>
    rw [Nat.toString_eq_ofList_toDigits, String.toList_ofList] at list
    exact absurd list Nat.toDigits_ne_nil
  | cons c cs =>
    rw [list] at digits value
    split
    · rename_i same
      cases same
      cases digits '+' List.mem_cons_self
    · rw [value, if_neg, if_pos fits]
      simpa using digits

theorem colon_notMem (n : Nat) : colon ∉ utf8 (toString n) := by
  rw [utf8_flatMap, List.mem_flatMap]
  rintro ⟨c, inside, byte⟩
  have low := digit_range (Registry.isDigit_of_mem_toString inside)
  have single : String.utf8EncodeChar c = [UInt8.ofNat c.toNat] := by
    unfold String.utf8EncodeChar
    exact if_pos (by change c.toNat ≤ 127; omega)
  rw [single, List.mem_singleton] at byte
  have value := congrArg UInt8.toNat byte
  rw [UInt8.toNat_ofNat'] at value
  have same : 58 = c.toNat % 2 ^ 8 := value
  omega

/-! ### Frames -/

/-- A packet that can be sent: an object whose text reads back as it is, of a length that can be
counted. -/
structure Sendable (packet : Json) : Prop where
  object : packet.isObject
  reads : Json.parse packet.text = .ok packet
  fits : (utf8 packet.text).length < UInt64.size

theorem parse_utf8 {packet : Json} (sendable : Sendable packet) : parse (utf8 packet.text) = .packet packet := by
  unfold parse
  rw [text?_utf8]
  dsimp only
  rw [sendable.reads]

theorem parse_cut {packet : Json} (sendable : Sendable packet) (short : n < (utf8 packet.text).length) :
    ∃ part, parse ((utf8 packet.text).take n) = .malformed part := by
  unfold parse
  cases read : text? ((utf8 packet.text).take n) with
  | none => exact ⟨.encoding, rfl⟩
  | some s =>
    dsimp only
    cases parsed : Json.parse s with
    | error fault => exact ⟨.json, rfl⟩
    | ok value =>
      exfalso
      have bytes := eq_utf8_of_text? read
      obtain ⟨more, rest⟩ := toList_prefix_of_utf8 (bytes ▸ List.take_append_drop n (utf8 packet.text))
      cases packet with
      | obj fields =>
        have text : Json.write (.obj fields) [] = s.toList ++ more := by
          rw [rest, Json.text, String.toList_ofList]
        have left : more ≠ [] := by
          rintro rfl
          rw [List.append_nil] at rest
          rw [String.toList_inj.mp rest] at bytes
          have short' := congrArg List.length bytes
          rw [List.length_take] at short'
          omega
        have readable : Json.ofChars (s.toList ++ more) = .ok (.obj fields) := by
          rw [rest]
          exact sendable.reads
        exact Json.ofChars_of_cut text left readable parsed
      | _ => cases sendable.object

variable {packet : Json}

theorem next_at {head : Bytes} (plain : colon ∉ head) (rest : Bytes) : next (head ++ colon :: rest) =
    match length? head with
    | none => (.malformed .length, rest)
    | some n => (parse (rest.take n), rest.drop n) := by
  have pass : ∀ b ∈ head, (decide (b ≠ colon)) = true := by
    intro b inside
    exact decide_eq_true (fun same => plain (same ▸ inside))
  unfold next
  rw [List.dropWhile_append_of_pos pass, List.takeWhile_append_of_pos pass]
  have stop : (colon :: rest).dropWhile (fun b => decide (b ≠ colon)) = colon :: rest := rfl
  have none : (colon :: rest).takeWhile (fun b => decide (b ≠ colon)) = [] := rfl
  rw [stop, none]
  exact (List.append_nil head).symm ▸ rfl

theorem next_of_length {digits : Bytes} (plain : colon ∉ digits) (length : length? digits = some n) (rest : Bytes) :
    next (digits ++ colon :: rest) = (parse (rest.take n), rest.drop n) := by
  rw [next_at plain, length]

theorem next_of_plain {bytes : Bytes} (plain : colon ∉ bytes) : next bytes = (.ended, []) := by
  unfold next
  rw [List.dropWhile_eq_nil_iff.mpr]
  intro b inside
  exact decide_eq_true (fun same => plain (same ▸ inside))

theorem next_encode (sendable : Sendable packet) (rest : Bytes) :
    next (encode packet ++ rest) = (.packet packet, rest) := by
  unfold encode
  dsimp only
  rw [List.append_assoc, List.cons_append,
    next_of_length (colon_notMem _) (length?_utf8 sendable.fits), List.take_left, List.drop_left, parse_utf8 sendable]

theorem next_cut (sendable : Sendable packet) {cut : Nat} (short : cut < (encode packet).length) :
    next ((encode packet).take cut) = (.ended, []) ∨
      ∃ part, next ((encode packet).take cut) = (.malformed part, []) := by
  unfold encode at short ⊢
  dsimp only at short ⊢
  rw [List.length_append, List.length_cons] at short
  rw [List.take_append]
  by_cases early : cut ≤ (utf8 (toString (utf8 packet.text).length)).length
  · left
    rw [Nat.sub_eq_zero_of_le early, List.take_zero, List.append_nil]
    apply next_of_plain
    exact fun inside => colon_notMem _ (List.mem_of_mem_take inside)
  · right
    obtain ⟨n, later⟩ : ∃ n, cut - (utf8 (toString (utf8 packet.text).length)).length = n + 1 :=
      ⟨cut - (utf8 (toString (utf8 packet.text).length)).length - 1, by omega⟩
    obtain ⟨part, bad⟩ := parse_cut sendable (n := n) (by omega)
    refine ⟨part, ?_⟩
    rw [later, List.take_succ_cons, List.take_of_length_le (by omega),
      next_of_length (colon_notMem _) (length?_utf8 sendable.fits), List.take_of_length_le, List.drop_of_length_le, bad]
    · rw [List.length_take]
      omega
    · rw [List.length_take]
      omega

/-- What the readings of a stream end with: nothing more is made of what is left of it. -/
def Ends (readings : List Reading) : Prop :=
  readings = [.ended] ∨ ∃ part, readings = [.malformed part, .ended]

theorem readAll_nil (limit : Nat) : readAll limit [] = [Reading.ended].take limit := by
  cases limit with
  | zero => rfl
  | succ limit =>
    rw [readAll, List.take_succ_cons, List.take_nil]
    rfl

theorem readAll_cut (sendable : Sendable packet) {cut : Nat} (short : cut < (encode packet).length) :
    ∃ tail, Ends tail ∧ ∀ limit, readAll limit ((encode packet).take cut) = tail.take limit := by
  obtain ended | ⟨part, bad⟩ := next_cut sendable short
  · refine ⟨[.ended], .inl rfl, fun limit => ?_⟩
    cases limit with
    | zero => rfl
    | succ limit =>
      rw [readAll, ended, List.take_succ_cons, List.take_nil]
  · refine ⟨[.malformed part, .ended], .inr ⟨part, rfl⟩, fun limit => ?_⟩
    cases limit with
    | zero => rfl
    | succ limit =>
      rw [readAll, bad]
      dsimp only
      rw [readAll_nil]
      rfl

theorem readAll_encode (sendable : Sendable packet) (limit : Nat) (rest : Bytes) :
    readAll (limit + 1) (encode packet ++ rest) = .packet packet :: readAll limit rest := by
  rw [readAll, next_encode sendable]

/-- A stream of frames, cut off anywhere: exactly the packets whose frames lie wholly before the cut
are read, in order and as they were sent, and after them no other packet, only an error or the end. -/
theorem cut_stream_reads_whole_frames (packets : List Json) (sendable : ∀ packet ∈ packets, Sendable packet)
    (cut : Nat) : ∃ whole tail,
      whole ≤ packets.length ∧
      ((packets.take whole).flatMap encode).length ≤ cut ∧
      (whole < packets.length → cut < ((packets.take (whole + 1)).flatMap encode).length) ∧
      Ends tail ∧
      ∀ limit, readAll limit ((packets.flatMap encode).take cut) =
        ((packets.take whole).map Reading.packet ++ tail).take limit := by
  induction packets generalizing cut with
  | nil =>
    refine ⟨0, [.ended], Nat.le_refl _, Nat.zero_le _, fun more => absurd more (Nat.lt_irrefl _), .inl rfl, ?_⟩
    intro limit
    rw [List.flatMap_nil, List.take_nil, readAll_nil]
    rfl
  | cons packet packets ih =>
    have this := sendable packet List.mem_cons_self
    by_cases short : cut < (encode packet).length
    · obtain ⟨tail, ends, reads⟩ := readAll_cut this short
      refine ⟨0, tail, Nat.zero_le _, Nat.zero_le _, fun _ => ?_, ends, fun limit => ?_⟩
      · simpa using short
      · rw [List.flatMap_cons, List.take_append_of_le_length (Nat.le_of_lt short)]
        exact reads limit
    · obtain ⟨whole, tail, few, inside, next, ends, reads⟩ :=
        ih (fun p later => sendable p (List.mem_cons_of_mem _ later)) (cut - (encode packet).length)
      refine ⟨whole + 1, tail, Nat.succ_le_succ few, ?_, fun more => ?_, ends, fun limit => ?_⟩
      · rw [List.take_succ_cons, List.flatMap_cons, List.length_append]
        omega
      · have later := next (Nat.lt_of_succ_lt_succ more)
        rw [List.take_succ_cons, List.flatMap_cons, List.length_append]
        omega
      · rw [List.flatMap_cons, List.take_append, List.take_of_length_le (by omega)]
        cases limit with
        | zero => rfl
        | succ limit =>
          rw [readAll_encode this, reads limit]
          rfl

/-- Two frames of sixteen bytes, cut off inside a character of the second. -/
theorem cut_stream_reads_whole_frames_accent :
    Sendable (.obj [("to", .str "1:é")]) ∧
      ∃ whole tail,
        whole ≤ 2 ∧
        (([Json.obj [("to", .str "1:é")], .obj [("to", .str "1:é")]].take whole).flatMap encode).length ≤ 29 ∧
        (whole < 2 →
          29 < (([Json.obj [("to", .str "1:é")], .obj [("to", .str "1:é")]].take (whole + 1)).flatMap encode).length) ∧
        Ends tail ∧
        ∀ limit, readAll limit (([Json.obj [("to", .str "1:é")], .obj [("to", .str "1:é")]].flatMap encode).take 29) =
          (([Json.obj [("to", .str "1:é")], .obj [("to", .str "1:é")]].take whole).map Reading.packet ++ tail).take
            limit := by
  have text : (Json.obj [("to", .str "1:é")]).text.toList = Json.write (.obj [("to", .str "1:é")]) [] :=
    String.toList_ofList
  have sendable : Sendable (.obj [("to", .str "1:é")]) := by
    refine ⟨rfl, ?_, ?_⟩
    · rw [Json.parse, text]
      rfl
    · rw [utf8_flatMap, text]
      decide +kernel
  exact ⟨sendable, cut_stream_reads_whole_frames [_, _] (by simpa using sendable) 29⟩

end RemoteInspector.Framing
