import Audd.Refused
import Audd.ScalarText

/-! Integers turned into text in place.  The first read of an integer as a text rewrites its node;
the text is the integer's canonical decimal, so that every later read of the member, as a text or
as an integer, gives what the first would have given. -/

namespace Audd

/-! ### Canonical decimals -/

/-- The text is the integer's sign, for a negative one only, and then its digits: no point, no
exponent, and no zero in front. -/
structure CanonicalDecimal (n : Int) (text digits : CString) : Prop where
  sign : text = (if n < 0 then ['-'] else []) ++ digits
  isDigit : ∀ c ∈ digits, c.isDigit = true
  value : digitsValue digits = n.natAbs
  nonempty : digits ≠ []
  shortest : digits.head? = some '0' → digits = ['0']

/-- Only the digits of zero begin with a zero. -/
theorem head_toDigits {n : Nat} (h : (Nat.toDigits 10 n).head? = some '0') : n = 0 := by
  induction n using Nat.strongRecOn with
  | ind n ih =>
    by_cases hlt : n < 10
    · rw [Nat.toDigits_of_lt_base hlt, List.head?_cons] at h
      interval_cases n <;> first | rfl | exact absurd h (by decide)
    · have hne : Nat.toDigits 10 (n / 10) ≠ [] := Nat.toDigits_ne_nil
      rw [Nat.toDigits_of_base_le (by decide) (by omega), List.head?_append_of_ne_nil _ hne] at h
      have := ih (n / 10) (by omega) h
      omega

theorem decimal_canonical (n : Int) :
    CanonicalDecimal n (decimal n) (Nat.toDigits 10 n.natAbs) where
  sign := by
    cases n with
    | ofNat n =>
      rw [if_neg (show ¬Int.ofNat n < 0 from Int.not_lt.mpr (Int.natCast_nonneg n))]
      rfl
    | negSucc n =>
      rw [if_pos (Int.negSucc_lt_zero n)]
      rfl
  isDigit := fun _ hc => isDigit_toDigits hc
  value := Nat.ofDigitChars_ten_toDigits
  nonempty := Nat.toDigits_ne_nil
  shortest := by
    intro h
    rw [head_toDigits h]
    rfl

/-! ### Rendering an integer -/

section

variable {p : Platform} {n : Int}

theorem inRange_of_exact (hn : |n| ≤ 2 ^ 53) : InRange 64 n := by
  rw [abs_le] at hn
  exact ⟨by omega, by omega⟩

theorem renderNumber_intCast (hn : |n| ≤ 2 ^ 53) (hexact : p.round n = .finite n) :
    renderNumber p (.finite n) = decimal n := by
  have hinteger : (CDouble.finite n).toInt64 p = n := CDouble.convert_int (inRange_of_exact hn)
  have hbelow : renderNumber.belowLimit (.finite n) = true := by
    have hlt : |n| < 10 ^ 18 := by omega
    rw [renderNumber.belowLimit, decide_eq_true_eq]
    exact_mod_cast hlt
  unfold renderNumber
  simp only [hinteger]
  rw [if_pos ⟨hexact.symm, hbelow⟩]

end

/-! ### The getters, called again and again -/

/-- A call of one of the getters. -/
inductive JsonGetter
  | string (key : CString)
  | int64 (key : CString) (default : Int)
  | int (key : CString) (default : Int)
  | bool (key : CString) (default : Int)

inductive JsonAnswer
  | text (s : Option CString)
  | number (n : Int)

/-- The call with its answer, and the tree that it leaves. -/
def JsonGetter.call (p : Platform) (obj : CJson) :
    JsonGetter → AllocM ((JsonGetter × JsonAnswer) × CJson)
  | .string key => do
    let (s, obj) ← jsonGetString p obj key
    pure ((.string key, .text s), obj)
  | .int64 key default => pure ((.int64 key default, .number (jsonGetInt64 p obj key default)), obj)
  | .int key default => pure ((.int key default, .number (jsonGetInt p obj key default)), obj)
  | .bool key default => pure ((.bool key default, .number (jsonGetBool obj key default)), obj)

/-- An answer that reads the member as `n`, or as its text. -/
structure Keeps (key : CString) (n : Int) (text : CString) (answer : JsonGetter × JsonAnswer) :
    Prop where
  int64 : ∀ default, answer.1 = .int64 key default → answer.2 = .number n
  string : answer.1 = .string key → answer.2 = .text (some text)

section

variable {p : Platform} {n : Int} {obj : CJson} {key : CString}

theorem every_call_of (obj : CJson) (call : JsonGetter) :
    (call.call p obj).Every fun a => a.1.1 = call := by
  cases call with
  | string k => exact AllocM.every_bind_of_forall fun _ => rfl
  | int64 | int | bool => exact rfl

/-- A read of any text leaves a string member alone. -/
theorem every_jsonGetString_keeps {text : CString}
    (h : obj.getObjectItemCaseSensitive key = some (.string text)) (k : CString) :
    (jsonGetString p obj k).Every fun a => (k = key → a.1 = some text) ∧
      a.2.getObjectItemCaseSensitive key = some (.string text) := by
  by_cases hk : k = key
  · subst hk
    simp [jsonGetString, h]
  · refine (every_jsonGetString obj k).mono fun a ha => ⟨fun heq => absurd heq hk, ?_⟩
    rw [ha.2 key (Ne.symm hk), h]

/-- One call on a tree where the member is the text of `n`. -/
theorem every_call_keeps (hn : InRange 64 n)
    (h : obj.getObjectItemCaseSensitive key = some (.string (decimal n))) (call : JsonGetter) :
    (call.call p obj).Every fun a => Keeps key n (decimal n) a.1 ∧
      a.2.getObjectItemCaseSensitive key = some (.string (decimal n)) := by
  cases call with
  | string k =>
    refine (every_jsonGetString_keeps h k).bind fun a ha => ⟨⟨fun _ heq => ?_, fun heq => ?_⟩, ha.2⟩
    · cases heq
    · cases heq
      exact congrArg JsonAnswer.text (ha.1 rfl)
  | int64 k default =>
    refine ⟨⟨fun _ heq => ?_, fun heq => ?_⟩, h⟩
    · cases heq
      show JsonAnswer.number (jsonGetInt64 p obj key default) = .number n
      simp [jsonGetInt64, h, parseIntString_decimal p hn]
    · cases heq
  | int k default => exact ⟨⟨fun _ heq => (by cases heq), fun heq => (by cases heq)⟩, h⟩
  | bool k default => exact ⟨⟨fun _ heq => (by cases heq), fun heq => (by cases heq)⟩, h⟩

theorem replace_split {ms : List (CString × CJson)} {old : CJson} (h : ms.lookup key = some old)
    (item : CJson) : ∃ before after, ms = before ++ (key, old) :: after ∧
      CJson.setItem.replace key item ms = before ++ (key, item) :: after ∧
      key ∉ before.map Prod.fst := by
  induction ms with
  | nil => cases h
  | cons m ms ih =>
    obtain ⟨name, value⟩ := m
    rw [List.lookup_cons] at h
    by_cases hname : name = key
    · subst hname
      rw [beq_self_eq_true] at h
      cases h
      exact ⟨[], ms, rfl, by simp [CJson.setItem.replace], by simp⟩
    · rw [beq_false_of_ne (Ne.symm hname)] at h
      obtain ⟨before, after, hms, hreplace, hbefore⟩ := ih h
      refine ⟨(name, value) :: before, after, by rw [hms]; rfl, ?_, ?_⟩
      · simp only [CJson.setItem.replace]
        rw [if_neg hname, hreplace]
        rfl
      · simpa [Ne.symm hname] using hbefore

/-- An integer of at most `2 ^ 53` in magnitude, read as a text: the answer is its canonical
decimal, its node becomes that string and every other member stays as it is, whatever calls of the
getters follow, each that asks for the integer gets `n` and each that asks for the text gets the
same one.  Where the text has no memory, NULL is answered and the tree is as before. -/
theorem jsonGetString_integer (p : Platform) (n : Int) (hn : |n| ≤ 2 ^ 53)
    (hexact : p.round n = .finite n) (obj : CJson) (key : CString)
    (h : obj.getObjectItemCaseSensitive key = some (.number (.finite n))) :
    ∃ text digits obj', CanonicalDecimal n text digits ∧
      (jsonGetString p obj key).ok = (some text, obj') ∧
      ((jsonGetString p obj key).Every fun a => a = (some text, obj') ∨ a = (none, obj)) ∧
      obj'.getObjectItemCaseSensitive key = some (.string text) ∧
      (∃ before after, obj.members = before ++ (key, .number (.finite n)) :: after ∧
        obj'.members = before ++ (key, .string text) :: after ∧ key ∉ before.map Prod.fst) ∧
      ∀ calls, (AllocM.answers (JsonGetter.call p) obj' calls).Every
        fun given => given.map Prod.fst = calls ∧ ∀ answer ∈ given, Keeps key n text answer := by
  have hrender : renderNumber p (.finite n) = decimal n := renderNumber_intCast hn hexact
  have hget : jsonGetString p obj key = jsonGetString.coerce obj key (decimal n) := by
    simp only [jsonGetString, h, hrender]
  have hstring := CJson.get_setItem_self (.string (decimal n)) h
  refine ⟨decimal n, _, obj.setItem key (.string (decimal n)), decimal_canonical n, ?_, ?_, hstring,
    ?_, fun calls => ?_⟩
  · rw [hget]
    rfl
  · rw [hget]
    simp [jsonGetString.coerce]
  · rw [CJson.members_setItem]
    exact replace_split h _
  · exact (AllocM.every_answers_of every_call_of _ calls).and
      (AllocM.every_answers
        (I := fun o => o.getObjectItemCaseSensitive key = some (.string (decimal n)))
        (fun o call ho => every_call_keeps (inRange_of_exact hn) ho call) hstring calls)

end

/-- `-85`, read twice as a text, then as an integer. -/
theorem jsonGetString_integer_negative :
    ∃ text digits obj', CanonicalDecimal (-85) text digits ∧
      (jsonGetString .exact (.object [("id", .null), ("k", .number (.finite (-85)))]) "k").ok =
        (some text, obj') ∧
      (AllocM.answers (JsonGetter.call .exact) obj' [.string "k", .int64 "k" 0]).Every fun given =>
        ∀ answer ∈ given, Keeps "k" (-85) text answer := by
  obtain ⟨text, digits, obj', hcanonical, hok, -, -, -, hcalls⟩ :=
    jsonGetString_integer .exact (-85) (by decide) (by simp [Platform.exact])
      (.object [("id", .null), ("k", .number (.finite (-85)))]) "k"
      rfl
  exact ⟨text, digits, obj', hcanonical, hok, (hcalls _).mono fun _ h => h.2⟩

end Audd
