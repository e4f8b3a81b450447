import RemoteInspector.Json.Reader
import RemoteInspector.Json.Writer
import Mathlib.Data.List.TakeWhile
/-!
Readers and longer texts: no proper part of the text of an object, from its beginning, is itself JSON.
-/
namespace RemoteInspector.Json

variable {first down : Bool} {next : Option (List Char)} {value : Nat} {v : Json} {fields : Fields}

variable {cs rest more : List Char} {c : Char}

/-! ### Blanks and marks -/

theorem skipBlanks_append (found : skipBlanks cs = c :: rest) (more : List Char) :
    skipBlanks (cs ++ more) = c :: (rest ++ more) := by
  unfold skipBlanks at found ⊢
  rw [List.dropWhile_append, found]
  rfl

theorem expect_append {es : List Char} (taken : expect es cs = .ok rest) (more : List Char) :
    expect es (cs ++ more) = .ok (rest ++ more) := by
  induction es generalizing cs with
  | nil =>
    cases taken
    rfl
  | cons e es ih =>
    cases cs with
    | nil => cases taken
    | cons c cs =>
      rw [expect] at taken
      split at taken
      · rename_i same
        rw [List.cons_append, expect, if_pos same]
        exact ih taken
      · cases taken

theorem readColon_append (taken : readColon cs = .ok rest) (more : List Char) :
    readColon (cs ++ more) = .ok (rest ++ more) := by
  unfold readColon at taken ⊢
  split at taken
  · cases taken
  · rename_i found
    cases taken
    rw [skipBlanks_append found]
    rfl
  · cases taken

theorem closeWith_append {mark : Char} (taken : closeWith mark cs = .ok rest) (more : List Char) :
    closeWith mark (cs ++ more) = .ok (rest ++ more) := by
  unfold closeWith at taken ⊢
  split at taken
  · cases taken
  · rename_i found
    rw [skipBlanks_append found]
    split at taken
    · rename_i same
      cases taken
      exact if_pos same
    · cases taken

theorem nextItem_of_head (found : skipBlanks cs = c :: rest) : nextItem first cs =
    if c = ']' then .ok none
    else if c = ',' then
      if first then .ok (some (c :: rest))
      else match skipBlanks rest with
        | [] => .error .truncated
        | e :: later => if e = ']' then .error .malformed else .ok (some (e :: later))
    else if first then .ok (some (c :: rest)) else .error .malformed := by
  unfold nextItem
  rw [found]
  split
  · simp_all
  · simp_all
  · split <;> simp_all
    split <;> simp_all
    split <;> simp_all
  · rename_i notEnd notComma
    have ends : c ≠ ']' := fun same => notEnd rest (by rw [same])
    have comma : c ≠ ',' := fun same => notComma rest (by rw [same])
    simp [ends, comma]

theorem nextItem_append (taken : nextItem first cs = .ok next) (more : List Char) :
    nextItem first (cs ++ more) = .ok (next.map (· ++ more)) := by
  cases found : skipBlanks cs with
  | nil => simp [nextItem, found] at taken
  | cons c behind =>
    rw [nextItem_of_head found] at taken
    rw [nextItem_of_head (skipBlanks_append found more)]
    split_ifs at taken ⊢ with ends comma new
    · cases taken
      rfl
    · cases taken
      rfl
    · cases onward : skipBlanks behind with
      | nil => simp [onward] at taken
      | cons e later =>
        rw [onward] at taken
        rw [skipBlanks_append onward]
        dsimp only at taken ⊢
        split_ifs at taken ⊢ with closes
        cases taken
        rfl
    · cases taken
      rfl

theorem nextKey_of_head (found : skipBlanks cs = c :: rest) : nextKey first cs =
    if c = '\x7d' then .ok none
    else if c = ',' then if first then .error .malformed else nextKey.key (skipBlanks rest)
    else if first then nextKey.key (c :: rest) else .error .malformed := by
  unfold nextKey
  rw [found]
  split
  · simp_all
  · simp_all
  · simp_all
  · rename_i notEnd notComma
    have ends : c ≠ '\x7d' := fun same => notEnd rest (by rw [same])
    have comma : c ≠ ',' := fun same => notComma rest (by rw [same])
    simp [ends, comma]

theorem key_append (taken : nextKey.key cs = .ok next) (more : List Char) :
    nextKey.key (cs ++ more) = .ok (next.map (· ++ more)) := by
  unfold nextKey.key at taken
  split at taken
  · cases taken
  · cases taken
    rfl
  · cases taken

theorem key_skipBlanks_append (taken : nextKey.key (skipBlanks cs) = .ok next) (more : List Char) :
    nextKey.key (skipBlanks (cs ++ more)) = .ok (next.map (· ++ more)) := by
  cases found : skipBlanks cs with
  | nil =>
    rw [found] at taken
    cases taken
  | cons c behind =>
    rw [skipBlanks_append found, ← List.cons_append, ← found]
    exact key_append taken more

theorem nextKey_append (taken : nextKey first cs = .ok next) (more : List Char) :
    nextKey first (cs ++ more) = .ok (next.map (· ++ more)) := by
  cases found : skipBlanks cs with
  | nil => simp [nextKey, found] at taken
  | cons c behind =>
    rw [nextKey_of_head found] at taken
    rw [nextKey_of_head (skipBlanks_append found more)]
    split_ifs at taken ⊢ with ends comma new old
    · cases taken
      rfl
    · exact key_skipBlanks_append taken more
    · exact key_append taken more

/-! ### Strings -/

theorem readChars_append {mode : StringMode} {acc : List Char} {s : String}
    (taken : readChars mode acc cs = .ok (s, rest)) (more : List Char) :
    readChars mode acc (cs ++ more) = .ok (s, rest ++ more) := by
  induction cs generalizing mode acc with
  | nil => cases mode <;> simp [readChars] at taken
  | cons c cs ih =>
    rw [List.cons_append]
    cases mode with
    | plain =>
      unfold readChars at taken ⊢
      split_ifs at taken ⊢
      · cases taken
        rfl
      · exact ih taken
      · exact ih taken
    | escape =>
      unfold readChars at taken ⊢
      split_ifs at taken ⊢
      · exact ih taken
      · cases simple : simpleEscape? c with
        | none => simp [simple] at taken
        | some e =>
          rw [simple] at taken
          exact ih taken
    | hex count value high =>
      unfold readChars at taken ⊢
      cases digit : hexValue? c with
      | none => simp [digit] at taken
      | some d =>
        rw [digit] at taken
        cases high with
        | some h | none =>
          dsimp only at taken ⊢
          split_ifs at taken ⊢
          all_goals exact ih taken
    | low high =>
      unfold readChars at taken ⊢
      split_ifs at taken ⊢
      exact ih taken
    | lowMark high =>
      unfold readChars at taken ⊢
      split_ifs at taken ⊢
      exact ih taken

/-! ### Numbers -/

theorem takeDigits_append {limit n taken n' taken' : Nat}
    (digits : takeDigits limit n taken cs = (n', taken', c :: rest)) (more : List Char) :
    takeDigits limit n taken (cs ++ more) = (n', taken', c :: (rest ++ more)) := by
  induction cs generalizing n taken with
  | nil => simp [takeDigits] at digits
  | cons d ds ih =>
    rw [List.cons_append]
    unfold takeDigits at digits ⊢
    split at digits
    · rename_i fits
      rw [if_pos fits]
      exact ih digits
    · rename_i full
      rw [if_neg full]
      cases digits
      rfl

theorem skipDigits_append (found : skipDigits cs = c :: rest) (more : List Char) :
    skipDigits (cs ++ more) = c :: (rest ++ more) := by
  unfold skipDigits at found ⊢
  rw [List.dropWhile_append, found]
  rfl

theorem countDigits_append (found : skipDigits cs = c :: rest) (more : List Char) :
    countDigits (cs ++ more) = countDigits cs := by
  unfold skipDigits at found
  unfold countDigits
  rw [List.takeWhile_append, if_neg]
  intro all
  have whole := congrArg List.length (List.takeWhile_append_dropWhile (p := Char.isDigit) (l := cs))
  rw [List.length_append, found, List.length_cons] at whole
  omega

theorem startsWithDigit_append (left : cs ≠ []) (more : List Char) :
    startsWithDigit (cs ++ more) = startsWithDigit cs := by
  cases cs with
  | nil => exact absurd rfl left
  | cons c cs => rfl

theorem finishDouble_append {negative : Bool} {significand : Nat} {exponent : Int} {n : Number}
    (taken : finishDouble negative significand exponent cs = .ok (n, rest)) (more : List Char) :
    rest = cs ∧ finishDouble negative significand exponent (cs ++ more) = .ok (n, rest ++ more) := by
  unfold finishDouble at taken ⊢
  split at taken
  · cases taken
    exact ⟨rfl, rfl⟩
  · cases taken

def unsign (cs : List Char) : Bool × List Char :=
  match cs with
  | '+' :: rest => (false, rest)
  | '-' :: rest => (true, rest)
  | _ => (false, cs)

theorem unsign_append (taken : unsign cs = (down, c :: rest)) (more : List Char) :
    unsign (cs ++ more) = (down, c :: (rest ++ more)) := by
  unfold unsign at taken
  split at taken
  · cases taken
    rfl
  · cases taken
    rfl
  · rename_i plus minus
    cases taken
    rw [List.cons_append, unsign]
    · exact fun behind same => plus rest (by rw [(List.cons.inj same).1])
    · exact fun behind same => minus rest (by rw [(List.cons.inj same).1])

variable {negative : Bool} {significand dropped : Nat} {exponent : Int} {n : Number}

/-- A number whose exponent has been taken as far as it fits into 31 bits. -/
def settleExponent (negative : Bool) (significand : Nat) (exponent : Int) (down : Bool) (n : Nat)
    (rest : List Char) : Except Fault (Number × List Char) :=
  if startsWithDigit rest then
    if significand ≠ 0 && !down then .error .malformed
    else .ok (.float (Double.zero negative), skipDigits rest)
  else finishDouble negative significand (if down then exponent - n else exponent + n) rest

theorem settleExponent_append
    (taken : settleExponent negative significand exponent down value cs = .ok (n, c :: rest)) (more : List Char) :
    settleExponent negative significand exponent down value (cs ++ more) = .ok (n, c :: (rest ++ more)) := by
  cases cs with
  | nil => cases (finishDouble_append taken []).1
  | cons d ds =>
    unfold settleExponent at taken ⊢
    rw [startsWithDigit_append (List.cons_ne_nil d ds)]
    by_cases longer : startsWithDigit (d :: ds)
    · rw [if_pos longer] at taken ⊢
      by_cases large : (significand ≠ 0 && !down) = true
      · rw [if_pos large] at taken
        cases taken
      · rw [if_neg large] at taken ⊢
        have left : skipDigits (d :: ds) = c :: rest := congrArg Prod.snd (Except.ok.inj taken)
        have zero : Number.float (Double.zero negative) = n := congrArg Prod.fst (Except.ok.inj taken)
        rw [skipDigits_append left, zero]
    · rw [if_neg longer] at taken ⊢
      exact (finishDouble_append taken more).2

theorem readExponent_of_sign {digits : List Char} (sign : unsign cs = (down, digits)) :
    readExponent negative significand exponent cs =
      if startsWithDigit digits then
        settleExponent negative significand exponent down (takeDigits (Nat.pow 2 31 - 1) 0 0 digits).1
          (takeDigits (Nat.pow 2 31 - 1) 0 0 digits).2.2 else .error (digitFault digits) := by
  unfold readExponent
  split
  rename_i down' digits' same
  have whole : unsign cs = (down', digits') := same
  cases sign.symm.trans whole
  rfl

theorem readExponent_append (taken : readExponent negative significand exponent cs = .ok (n, c :: rest))
    (more : List Char) : readExponent negative significand exponent (cs ++ more) = .ok (n, c :: (rest ++ more)) := by
  obtain ⟨down, digits, sign⟩ : ∃ down digits, unsign cs = (down, digits) := ⟨_, _, rfl⟩
  rw [readExponent_of_sign sign] at taken
  cases digits with
  | nil => cases taken
  | cons d ds =>
    rw [readExponent_of_sign (unsign_append sign more), ← List.cons_append,
      startsWithDigit_append (List.cons_ne_nil d ds)]
    by_cases digit : startsWithDigit (d :: ds)
    · rw [if_pos digit] at taken ⊢
      obtain ⟨value, count, behind, run⟩ :
          ∃ value count behind, takeDigits (Nat.pow 2 31 - 1) 0 0 (d :: ds) = (value, count, behind) :=
        ⟨_, _, _, rfl⟩
      rw [run] at taken
      cases behind with
      | nil => cases (finishDouble_append taken []).1
      | cons e es =>
        rw [takeDigits_append run]
        exact settleExponent_append taken more
    · rw [if_neg digit] at taken
      cases taken

theorem finishMantissa_append (taken : finishMantissa negative significand exponent cs = .ok (n, c :: rest))
    (more : List Char) : finishMantissa negative significand exponent (cs ++ more) = .ok (n, c :: (rest ++ more)) := by
  unfold finishMantissa at taken
  split at taken
  · exact readExponent_append taken more
  · exact readExponent_append taken more
  · rename_i small big
    have done := finishDouble_append taken more
    rw [← done.1] at small big ⊢
    unfold finishMantissa
    split
    · rename_i same
      exact absurd (congrArg (· :: rest) (List.cons.inj same).1) (small rest)
    · rename_i same
      exact absurd (congrArg (· :: rest) (List.cons.inj same).1) (big rest)
    · rw [done.1]
      exact done.2

theorem finishMantissa_nil (taken : finishMantissa negative significand exponent [] = .ok (n, rest)) : rest = [] :=
  (finishDouble_append taken []).1

theorem readPlaces_append (taken : readPlaces negative significand exponent cs = .ok (n, c :: rest))
    (more : List Char) : readPlaces negative significand exponent (cs ++ more) = .ok (n, c :: (rest ++ more)) := by
  obtain ⟨value, count, behind, run⟩ :
      ∃ value count behind, takeDigits maxWord significand 0 cs = (value, count, behind) := ⟨_, _, _, rfl⟩
  unfold readPlaces at taken ⊢
  rw [run] at taken
  dsimp only at taken
  by_cases missing : (decide (count = 0) && !startsWithDigit behind) = true
  · rw [if_pos missing] at taken
    cases taken
  · rw [if_neg missing] at taken
    cases left : skipDigits behind with
    | nil =>
      rw [left] at taken
      cases finishMantissa_nil taken
    | cons d ds =>
      cases behind with
      | nil => cases left
      | cons e es =>
        rw [takeDigits_append run]
        dsimp only
        rw [← List.cons_append, startsWithDigit_append (List.cons_ne_nil e es), if_neg missing,
          skipDigits_append left, ← List.cons_append, ← left]
        exact finishMantissa_append taken more

theorem afterWhole_of_head (point : c ≠ '.') (small : c ≠ 'e') (big : c ≠ 'E') :
    readNumber.afterWhole negative value dropped (c :: rest) =
      if dropped = 0 then .ok (wholeNumber negative value, c :: rest)
      else finishDouble negative value dropped (c :: rest) := by
  unfold readNumber.afterWhole
  split
  · rename_i same
    exact absurd (List.cons.inj same).1 point
  · split
    · rename_i same
      exact absurd (List.cons.inj same).1 small
    · rename_i same
      exact absurd (List.cons.inj same).1 big
    · rfl

theorem afterWhole_nil (taken : readNumber.afterWhole negative value dropped [] = .ok (n, rest)) : rest = [] := by
  change (if dropped = 0 then _ else _) = _ at taken
  split at taken
  · cases taken
    rfl
  · exact (finishDouble_append taken []).1

theorem afterWhole_append (taken : readNumber.afterWhole negative value dropped cs = .ok (n, c :: rest))
    (more : List Char) : readNumber.afterWhole negative value dropped (cs ++ more) = .ok (n, c :: (rest ++ more)) := by
  cases cs with
  | nil => cases afterWhole_nil taken
  | cons d ds =>
    by_cases point : d = '.'
    · subst point
      exact readPlaces_append taken more
    · by_cases small : d = 'e'
      · subst small
        exact readExponent_append taken more
      · by_cases big : d = 'E'
        · subst big
          exact readExponent_append taken more
        · rw [afterWhole_of_head point small big] at taken
          rw [List.cons_append, afterWhole_of_head point small big]
          by_cases none : dropped = 0
          · rw [if_pos none] at taken ⊢
            cases taken
            rfl
          · rw [if_neg none] at taken ⊢
            exact (finishDouble_append taken more).2

theorem readNumber_of_head (zero : c ≠ '0') : readNumber negative (c :: rest) =
    if c.isDigit then
      readNumber.afterWhole negative (takeDigits maxWord 0 0 (c :: rest)).1
        (countDigits (takeDigits maxWord 0 0 (c :: rest)).2.2) (skipDigits (takeDigits maxWord 0 0 (c :: rest)).2.2)
    else .error .malformed := by
  unfold readNumber
  split
  · rename_i same
    exact absurd (List.cons.inj same).1 zero
  · rfl

theorem readNumber_append (taken : readNumber negative cs = .ok (n, c :: rest)) (more : List Char) :
    readNumber negative (cs ++ more) = .ok (n, c :: (rest ++ more)) := by
  cases cs with
  | nil => cases taken
  | cons d ds =>
    by_cases zero : d = '0'
    · subst zero
      cases ds with
      | nil =>
        have alone : readNumber negative ['0'] = readNumber.afterWhole negative 0 0 [] := rfl
        cases afterWhole_nil (alone ▸ taken)
      | cons e es =>
        change (if e.isDigit then _ else _) = _ at taken
        change (if e.isDigit then _ else _) = _
        split at taken
        · cases taken
        · rename_i digit
          rw [if_neg digit]
          exact afterWhole_append taken more
    · rw [readNumber_of_head zero] at taken
      rw [List.cons_append, readNumber_of_head zero]
      by_cases digit : d.isDigit = true
      · rw [if_pos digit] at taken ⊢
        obtain ⟨value, count, behind, run⟩ :
            ∃ value count behind, takeDigits maxWord 0 0 (d :: ds) = (value, count, behind) := ⟨_, _, _, rfl⟩
        rw [run] at taken
        cases left : skipDigits behind with
        | nil =>
          rw [left] at taken
          cases afterWhole_nil taken
        | cons e es =>
          cases behind with
          | nil => cases left
          | cons f fs =>
            rw [← List.cons_append, takeDigits_append run]
            dsimp only
            rw [← List.cons_append, countDigits_append left, skipDigits_append left, ← List.cons_append, ← left]
            exact afterWhole_append taken more
      · rw [if_neg digit] at taken
        cases taken

/-! ### Values -/

theorem ok_of_bind {α β : Type} {x : Except Fault α} {f : α → Except Fault β} {b : β}
    (done : x >>= f = .ok b) : ∃ a, x = .ok a ∧ f a = .ok b := by
  cases x with
  | error fault => cases done
  | ok a => exact ⟨a, rfl, done⟩

theorem bind_of_ok {α β : Type} {x : Except Fault α} {a : α} (done : x = .ok a) (f : α → Except Fault β) :
    x >>= f = f a := by
  rw [done]
  rfl

theorem readValue_of_digit {fuel depth : Nat} (found : skipBlanks cs = c :: rest) (digit : c.isDigit) :
    readValue (fuel + 1) depth cs = readNumber false (c :: rest) >>= fun p => .ok (.num p.1, p.2) := by
  rw [readValue, found]
  split
  case h_9 same =>
    cases same
    exact if_pos digit
  all_goals
    rename_i same
    cases same
    try cases digit

/-- With so much fuel the readers do not care what comes after the text they take. -/
structure Extends (fuel : Nat) : Prop where
  value {fuel' depth : Nat} {cs rest : List Char} {v : Json} :
    readValue fuel depth cs = .ok (v, rest) → (∀ n, v = .num n → rest ≠ []) → fuel ≤ fuel' →
      ∀ more, readValue fuel' depth (cs ++ more) = .ok (v, rest ++ more)
  items {fuel' depth : Nat} {first : Bool} {cs rest : List Char} {items : List Json} :
    readItems fuel depth first cs = .ok (items, rest) → fuel ≤ fuel' →
      ∀ more, readItems fuel' depth first (cs ++ more) = .ok (items, rest ++ more)
  fields {fuel' depth : Nat} {first : Bool} {members fields : Fields} {cs rest : List Char} :
    readFields fuel depth first members cs = .ok (fields, rest) → fuel ≤ fuel' →
      ∀ more, readFields fuel' depth first members (cs ++ more) = .ok (fields, rest ++ more)

variable {fuel fuel' depth : Nat}

theorem readNumber_longer (taken : readNumber negative cs = .ok (n, rest)) (whole : rest ≠ [])
    (more : List Char) : readNumber negative (cs ++ more) = .ok (n, rest ++ more) := by
  cases rest with
  | nil => exact absurd rfl whole
  | cons c rest => exact readNumber_append taken more

theorem Extends.value_succ (ih : Extends fuel) (taken : readValue (fuel + 1) depth cs = .ok (v, rest))
    (whole : ∀ n, v = .num n → rest ≠ []) (enough : fuel ≤ fuel') (more : List Char) :
    readValue (fuel' + 1) depth (cs ++ more) = .ok (v, rest ++ more) := by
  rw [readValue] at taken
  split at taken
  case h_1 => cases taken
  case h_2 behind found =>
    obtain ⟨⟨s, left⟩, read, done⟩ := ok_of_bind taken
    cases done
    rw [readValue, skipBlanks_append found]
    exact bind_of_ok (readChars_append read more) _
  case h_3 behind found =>
    rw [readValue, skipBlanks_append found]
    cases depth with
    | zero => cases taken
    | succ depth =>
      obtain ⟨⟨items, left⟩, read, done⟩ := ok_of_bind taken
      cases done
      exact bind_of_ok (ih.items read enough more) _
  case h_4 behind found =>
    rw [readValue, skipBlanks_append found]
    cases depth with
    | zero => cases taken
    | succ depth =>
      obtain ⟨⟨fields, left⟩, read, done⟩ := ok_of_bind taken
      cases done
      exact bind_of_ok (ih.fields read enough more) _
  case h_5 behind found | h_6 behind found | h_7 behind found =>
    obtain ⟨left, read, done⟩ := ok_of_bind taken
    cases done
    rw [readValue, skipBlanks_append found]
    exact bind_of_ok (expect_append read more) _
  case h_8 behind found =>
    obtain ⟨⟨n, left⟩, read, done⟩ := ok_of_bind taken
    cases done
    rw [readValue, skipBlanks_append found]
    exact bind_of_ok (readNumber_longer read (whole n rfl) more) _
  case h_9 head behind _ _ _ _ _ _ _ found =>
    split at taken
    · rename_i digit
      obtain ⟨⟨n, left⟩, read, done⟩ := ok_of_bind taken
      cases done
      rw [readValue_of_digit (skipBlanks_append found more) digit]
      exact bind_of_ok (readNumber_longer read (whole n rfl) more) _
    · cases taken

theorem readItems_nil : readItems fuel depth first [] = .error .truncated := by
  cases fuel with
  | zero => rw [readItems]
  | succ fuel => rfl

theorem readFields_nil {members : Fields} : readFields fuel depth first members [] = .error .truncated := by
  cases fuel with
  | zero => rw [readFields]
  | succ fuel => rfl

theorem Extends.items_succ (ih : Extends fuel) {items : List Json}
    (taken : readItems (fuel + 1) depth first cs = .ok (items, rest)) (enough : fuel ≤ fuel') (more : List Char) :
    readItems (fuel' + 1) depth first (cs ++ more) = .ok (items, rest ++ more) := by
  rw [readItems] at taken ⊢
  obtain ⟨next, step, taken⟩ := ok_of_bind taken
  rw [bind_of_ok (nextItem_append step more)]
  cases next with
  | none =>
    obtain ⟨left, closed, done⟩ := ok_of_bind taken
    cases done
    exact bind_of_ok (closeWith_append closed more) _
  | some behind =>
    obtain ⟨⟨item, left⟩, read, taken⟩ := ok_of_bind taken
    obtain ⟨⟨later, right⟩, others, done⟩ := ok_of_bind taken
    cases done
    have goesOn : left ≠ [] := by
      rintro rfl
      rw [readItems_nil] at others
      cases others
    refine (bind_of_ok (ih.value read (fun _ _ => goesOn) enough more) _).trans ?_
    exact bind_of_ok (ih.items others enough more) _

theorem Extends.fields_succ (ih : Extends fuel) {members : Fields}
    (taken : readFields (fuel + 1) depth first members cs = .ok (fields, rest)) (enough : fuel ≤ fuel')
    (more : List Char) : readFields (fuel' + 1) depth first members (cs ++ more) = .ok (fields, rest ++ more) := by
  rw [readFields] at taken ⊢
  obtain ⟨next, step, taken⟩ := ok_of_bind taken
  rw [bind_of_ok (nextKey_append step more)]
  cases next with
  | none =>
    obtain ⟨left, closed, done⟩ := ok_of_bind taken
    cases done
    exact bind_of_ok (closeWith_append closed more) _
  | some behind =>
    obtain ⟨⟨key, left⟩, name, taken⟩ := ok_of_bind taken
    obtain ⟨onward, colon, taken⟩ := ok_of_bind taken
    obtain ⟨⟨value, right⟩, read, taken⟩ := ok_of_bind taken
    have others : readFields fuel depth false (members.insert key value) right = .ok (fields, rest) := taken
    have goesOn : right ≠ [] := by
      rintro rfl
      rw [readFields_nil] at others
      cases others
    refine (bind_of_ok (readChars_append name more) _).trans ?_
    refine (bind_of_ok (readColon_append colon more) _).trans ?_
    refine (bind_of_ok (ih.value read (fun _ _ => goesOn) enough more) _).trans ?_
    exact ih.fields others enough more

theorem extends_all (fuel : Nat) : Extends fuel := by
  induction fuel with
  | zero =>
    constructor
    · intro _ _ _ _ _ taken
      rw [readValue] at taken
      cases taken
    · intro _ _ _ _ _ _ taken
      rw [readItems] at taken
      cases taken
    · intro _ _ _ _ _ _ _ taken
      rw [readFields] at taken
      cases taken
  | succ fuel ih =>
    constructor
    · intro fuel' _ _ _ _ taken whole enough more
      obtain ⟨k, rfl⟩ : ∃ k, fuel' = k + 1 := ⟨fuel' - 1, by omega⟩
      exact ih.value_succ taken whole (by omega) more
    · intro fuel' _ _ _ _ _ taken enough more
      obtain ⟨k, rfl⟩ : ∃ k, fuel' = k + 1 := ⟨fuel' - 1, by omega⟩
      exact ih.items_succ taken (by omega) more
    · intro fuel' _ _ _ _ _ _ taken enough more
      obtain ⟨k, rfl⟩ : ∃ k, fuel' = k + 1 := ⟨fuel' - 1, by omega⟩
      exact ih.fields_succ taken (by omega) more

/-! ### Texts that end early -/

mutual

theorem suffix_write (j : Json) (rest : List Char) : rest <:+ write j rest := by
  cases j with
  | null => exact List.suffix_append _ _
  | bool b => cases b <;> exact List.suffix_append _ _
  | num n => exact List.suffix_append _ _
  | str s => exact List.suffix_append _ _
  | arr items => exact ((List.suffix_cons _ _).trans (suffix_writeItems true items _)).trans (List.suffix_cons _ _)
  | obj fields => exact ((List.suffix_cons _ _).trans (suffix_writeFields true fields _)).trans (List.suffix_cons _ _)

theorem suffix_writeItems (first : Bool) (items : List Json) (rest : List Char) :
    rest <:+ writeItems first items rest := by
  cases items with
  | nil => cases first <;> exact List.suffix_refl _
  | cons j items =>
    have later := (suffix_writeItems false items rest).trans (suffix_write j _)
    cases first with
    | true => exact later
    | false => exact later.trans (List.suffix_cons _ _)

theorem suffix_writeFields (first : Bool) (fields : List (String × Json)) (rest : List Char) :
    rest <:+ writeFields first fields rest := by
  cases fields with
  | nil => cases first <;> exact List.suffix_refl _
  | cons field fields =>
    obtain ⟨key, j⟩ := field
    have later := ((suffix_writeFields false fields rest).trans (suffix_write j _)).trans
      ((List.suffix_cons ':' _).trans (List.suffix_append (quote key) _))
    cases first with
    | true => exact later
    | false => exact later.trans (List.suffix_cons _ _)

end

theorem mem_of_object_text (text : write (.obj fields) [] = cs ++ more) (left : more ≠ []) : '\x7d' ∈ more := by
  have closed : ['\x7d'] <:+ cs ++ more := by
    rw [← text]
    exact (suffix_writeFields true fields _).trans (List.suffix_cons _ _)
  obtain ⟨before, last, rfl⟩ := (List.eq_nil_or_concat more).resolve_left left
  obtain ⟨front, same⟩ := closed
  rw [List.concat_eq_append] at same ⊢
  rw [← List.append_assoc] at same
  have ends := (List.append_inj' same rfl).2
  rw [← ends]
  exact List.mem_append_right _ List.mem_cons_self

theorem readValue_brace (taken : readValue fuel depth ('\x7b' :: cs) = .ok (v, rest)) (n : Number) : v ≠ .num n := by
  cases fuel with
  | zero =>
    rw [readValue] at taken
    cases taken
  | succ fuel =>
    have found : skipBlanks ('\x7b' :: cs) = '\x7b' :: cs := rfl
    rw [readValue, found] at taken
    cases depth with
    | zero => cases taken
    | succ depth =>
      obtain ⟨⟨fields, left⟩, -, done⟩ := ok_of_bind taken
      cases done
      exact Json.noConfusion

theorem ofChars_of_cut {p : Json} (text : write (.obj fields) [] = cs ++ more) (left : more ≠ [])
    (readable : ofChars (cs ++ more) = .ok p) : ofChars cs ≠ .ok v := by
  intro parsed
  obtain ⟨⟨v', rest⟩, taken, -⟩ := ok_of_bind parsed
  cases cs with
  | nil => cases taken
  | cons c cs =>
    obtain rfl : '\x7b' = c := (List.cons.inj text).1
    -- The whole text reads as the cut one does, so a closing brace is left over at its end.
    have longer := (extends_all _).value taken (fun n same => absurd same (readValue_brace taken n))
      (by rw [List.length_append]; omega : _ ≤ ('\x7b' :: cs ++ more).length + 1) more
    obtain ⟨⟨v'', rest'⟩, again, done⟩ := ok_of_bind readable
    cases longer.symm.trans again
    obtain ⟨_, clean, -⟩ := ok_of_bind done
    unfold finish skipBlanks at clean
    split at clean
    · rename_i empty
      have blank := List.dropWhile_eq_nil_iff.mp (List.isEmpty_iff.mp empty) '\x7d'
        (List.mem_append_right _ (mem_of_object_text text left))
      cases blank
    · cases clean

end RemoteInspector.Json
