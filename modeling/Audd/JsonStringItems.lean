import Audd.JsonEdits
import Audd.JsonStandard

/-! `parse_string` in memory.  It asks for a block of the text's length less one byte for every
escape sequence, and stores what it decodes behind the last byte stored.  The second loop need not
meet the sequences that the first one counted: digits that are none may hide a backslash.  Still
the block is never too small. -/

namespace Audd

namespace Items

open HeapM

/-! ### The loops -/

/-- `skipped_bytes`, over the text that was scanned. -/
def skippedBytes : CString → Nat
  | '\\' :: _ :: rest => skippedBytes rest + 1
  | _ :: rest => skippedBytes rest
  | [] => 0

/-- The second loop, as in `decodeString`, with what it stores: NULL when it fails. -/
def decodeStores : Nat → CString → Ptr → HeapM Cell (Option Ptr)
  | _, [], output => pure (some output)
  | skip + 1, _ :: rest, output => decodeStores skip rest output
  | 0, '\\' :: rest, output =>
    match rest.head? with
    | none => pure none
    | some 'u' =>
      match utf16LiteralToUtf8 ('\\' :: rest) with
      | none => pure none
      | some (bytes, sequenceLength) => do
        store output (bytes.map .char)
        decodeStores (sequenceLength - 1) rest (output.add bytes.length)
    | some c =>
      match unescape c with
      | none => pure none
      | some c => do
        store output [.char c]
        decodeStores 1 rest (output.add 1)
  | 0, c :: rest, output => do
    store output [.char c]
    decodeStores 0 rest (output.add 1)

/-- `parse_string`, into an item. -/
def parseString (item : Option Nat) (s : CString) : HeapM Cell (Option CString) :=
  match s with
  | '"' :: rest =>
    match scanString rest with
    | none => pure none
    | some (text, rest) => do
      match ← malloc (text.length + 1 - skippedBytes text + 1) with
      | none => pure none
      | some output =>
        match ← decodeStores 0 text output with
        | none => do
          free output
          pure none
        | some outputEnd => do
          store outputEnd [.char '\x00']
          update item fun n => { n with type := cJSON_String, valuestring := some output.block }
          pure (some rest)
  | _ => pure none

/-! ### What the text needs -/

/-- The bytes that the first loop counts for a text. -/
def room : CString → Nat
  | '\\' :: _ :: rest => room rest + 1
  | _ :: rest => room rest + 1
  | [] => 0

theorem room_add_skipped (s : CString) : room s + skippedBytes s = s.length := by
  induction s using room.induct with
  | case1 c rest ih =>
    rw [room, skippedBytes, List.length_cons, List.length_cons, ← ih]
    omega
  | case2 c rest hc ih =>
    rw [room, skippedBytes, List.length_cons, ← ih]
    · omega
    · exact hc
    · exact hc
  | case3 => rfl

theorem room_plain {c : Char} (hc : c ≠ '\\') (s : CString) : room (c :: s) = room s + 1 := by
  rw [room]
  exact fun _ _ h => absurd h hc

/-- A character counts for one byte at most, and never takes any away. -/
theorem room_cons (c : Char) (s : CString) :
    room s ≤ room (c :: s) ∧ room (c :: s) ≤ room s + 1 := by
  induction s generalizing c with
  | nil =>
    by_cases hc : c = '\\'
    · subst hc
      decide
    · rw [room_plain hc]
      omega
  | cons d s ih =>
    by_cases hc : c = '\\'
    · subst hc
      have hd := ih d
      rw [room]
      omega
    · rw [room_plain hc]
      omega

theorem room_drop_le (n : Nat) (s : CString) : room (s.drop n) ≤ room s := by
  induction n generalizing s with
  | zero => exact Nat.le_refl _
  | succ n ih =>
    cases s with
    | nil => exact Nat.le_refl _
    | cons c s => exact (ih s).trans (room_cons c s).1

theorem room_append {h : CString} (hh : ∀ c ∈ h, c ≠ '\\') (s : CString) :
    room (h ++ s) = h.length + room s := by
  induction h with
  | nil => exact (Nat.zero_add _).symm
  | cons c h ih =>
    obtain ⟨hc, hh⟩ := List.forall_mem_cons.1 hh
    rw [List.cons_append, room_plain hc, ih hh, List.length_cons]
    omega

/-- Four characters that are digits count for four bytes; others stand for code 0. -/
theorem codeTaken_room {h : CString} {n : Nat} (hn : codeTaken h n) (s : CString) :
    n = 0 ∨ room (h ++ s) = 4 + room s := by
  obtain ⟨hlength, rfl⟩ := hn
  cases hh : JsonText.hexNumber h with
  | none => exact .inl rfl
  | some n => exact .inr (hlength ▸ room_append (fun c hc => (hexNumber_plain hh c hc).2) s)

theorem length_utf8_le {n : Nat} (h : n < 0xD800 ∨ (0xDFFF < n ∧ n < 0x110000)) :
    (JsonText.utf8 n).length ≤ 4 := by
  rw [utf8_eq h]
  split_ifs <;> simp

/-- A UTF-16 sequence counts for no less than its bytes and what follows it. -/
theorem utf16_room {s bytes : CString} {k : Nat}
    (h : utf16LiteralToUtf8 ('\\' :: 'u' :: s) = some (bytes, k)) :
    bytes.length + room (('u' :: s).drop (k - 1)) ≤ room ('\\' :: 'u' :: s) := by
  rw [room]
  obtain ⟨g, n, t, rfl, hn, hhigh, hlow, hbytes, hk⟩ |
    ⟨g, l, n, m, t, rfl, hn, hm, hhigh, hlow, hbytes, hk⟩ := utf16Literal_split h
  · rw [hbytes, hk, drop_unicode hn.1]
    have hlength := length_utf8_le (codeTaken_valid hn hhigh hlow)
    obtain hzero | hroom := codeTaken_room hn t
    · have hdrop := room_drop_le 4 (g ++ t)
      rw [← hn.1, List.drop_left] at hdrop
      have hone : (JsonText.utf8 n).length = 1 := by
        rw [utf8_eq (by omega), if_pos (by omega), List.length_singleton]
      omega
    · omega
  · rw [hbytes, hk, drop_pair hn.1 hm.1]
    have hlength := length_utf8_le (pairPoint_valid hhigh hlow)
    obtain hzero | hroom := codeTaken_room hn ('\\' :: 'u' :: (l ++ t))
    · exact absurd hhigh.1 (by omega)
    · have hdrop := room_drop_le 4 (l ++ t)
      rw [← hm.1, List.drop_left] at hdrop
      rw [hroom, room]
      omega

/-! ### What is stored -/

section

variable {α β : Type} {m : Footprint Cell} {y : AllocM β} {Q : α → β → Footprint Cell → Prop}

/-- Characters stored behind those that were. -/
theorem refines_append {b : Nat} {before after : List (Option Cell)} {values : List Cell}
    {f : Unit → HeapM Cell α} (hroom : values.length ≤ after.length)
    (hf : ∀ after', after'.length + values.length = after.length →
      Refines ({(b, before ++ values.map some ++ after')} + m) (f ()) y Q) :
    Refines ({(b, before ++ after)} + m) (store ⟨b, before.length⟩ values >>= f) y Q := by
  refine refines_store (by rw [List.length_append]; omega) ?_
  have hsplice : Heap.splice (before ++ after) before.length (values.map some) =
      before ++ values.map some ++ after.drop values.length := by
    rw [Heap.splice, List.take_left, List.length_map, ← List.drop_drop, List.drop_left]
  rw [hsplice]
  exact hf _ (by rw [List.length_drop]; omega)

/-- The bytes of a text, or what was stored of them when it fails. -/
def Decoded (b : Nat) (before : List (Option Cell)) (p : Option Ptr) (r : Option CString)
    (m : Footprint Cell) : Prop :=
  (p = none ∧ r = none ∧ ∃ block, m = {(b, block)}) ∨
    ∃ bytes after, p = some ⟨b, (before.length + bytes.length : Nat)⟩ ∧ r = some bytes ∧
      0 < List.length after ∧
      m = {(b, before ++ bytes.map (fun c => some (.char c)) ++ after)}

theorem Decoded.append {b : Nat} {before : List (Option Cell)} {bytes : CString} {p : Option Ptr}
    {r : Option CString} {m : Footprint Cell}
    (h : Decoded b (before ++ (bytes.map Cell.char).map some) p r m) :
    Decoded b before p (r.map (bytes ++ ·)) m := by
  obtain ⟨rfl, rfl, hm⟩ | ⟨bytes', after, rfl, rfl, hafter, rfl⟩ := h
  · exact .inl ⟨rfl, rfl, hm⟩
  · refine .inr ⟨bytes ++ bytes', after, ?_, rfl, hafter, ?_⟩
    · simp only [List.length_append, List.length_map]
      rw [Nat.add_assoc]
    · simp [Function.comp_def]

theorem decodeStores_skip (k : Nat) (s : CString) (output : Ptr) :
    decodeStores k s output = decodeStores 0 (s.drop k) output := by
  induction k generalizing s with
  | zero => rfl
  | succ k ih =>
    cases s with
    | nil => rfl
    | cons c s => exact ih s

theorem decodeStores_plain {c : Char} (hc : c ≠ '\\') (s : CString) (output : Ptr) :
    decodeStores 0 (c :: s) output =
      store output [.char c] >>= fun _ => decodeStores 0 s (output.add 1) := by
  rw [decodeStores]
  exact fun h => hc h

theorem decodeStores_escape {e : Char} (he : e ≠ 'u') (s : CString) (output : Ptr) :
    decodeStores 0 ('\\' :: e :: s) output = (unescape e).elim (pure none) fun c =>
      store output [.char c] >>= fun _ => decodeStores 0 s (output.add 1) := by
  rw [decodeStores]
  simp only [List.head?_cons]
  cases unescape e <;> rfl

theorem decodeStores_utf16 (s : CString) (output : Ptr) :
    decodeStores 0 ('\\' :: 'u' :: s) output =
      (utf16LiteralToUtf8 ('\\' :: 'u' :: s)).elim (pure none) fun converted =>
        store output (converted.1.map .char) >>= fun _ =>
          decodeStores (converted.2 - 1) ('u' :: s) (output.add converted.1.length) := by
  rw [decodeStores]
  simp only [List.head?_cons]
  cases utf16LiteralToUtf8 ('\\' :: 'u' :: s) <;> rfl

theorem refines_decodeStores {s : CString} {b : Nat} {before after : List (Option Cell)}
    (hroom : room s < after.length) :
    Refines {(b, before ++ after)} (decodeStores 0 s ⟨b, before.length⟩)
      (AllocM.done (decodeString 0 s)) (Decoded b before) := by
  induction hlength : s.length using Nat.strong_induction_on generalizing s before after with
  | _ n ih =>
    have hfail : Refines {(b, before ++ after)} (pure (none : Option Ptr))
        (AllocM.done (none : Option CString)) (Decoded b before) :=
      Refines.pure (.inl ⟨rfl, rfl, _, rfl⟩)
    -- a character that is stored as one byte
    have hone : ∀ c s', s'.length < n → room s' + 1 < after.length →
        Refines {(b, before ++ after)}
          (store ⟨b, before.length⟩ [.char c] >>= fun _ =>
            decodeStores 0 s' (Ptr.add ⟨b, before.length⟩ 1))
          (AllocM.done ((decodeString 0 s').map (c :: ·))) (Decoded b before) := by
      intro c s' hs' hroom'
      rw [← add_zero {_}]
      refine refines_append (by rw [List.length_singleton]; omega) fun after' hafter => ?_
      rw [List.length_singleton] at hafter
      have hrest := @ih s'.length hs' s' (before ++ ([c].map Cell.char).map some) after'
        (by omega) rfl
      rw [List.length_append] at hrest
      rw [add_zero]
      exact hrest.done fun _ _ h => h.append
    cases s with
    | nil =>
      refine Refines.pure (.inr ⟨[], after, rfl, rfl, hroom, ?_⟩)
      rw [List.map_nil, List.append_nil]
    | cons c s =>
      by_cases hc : c = '\\'
      · subst hc
        cases s with
        | nil => exact hfail
        | cons e s =>
          by_cases he : e = 'u'
          · subst he
            rw [decodeStores_utf16, decodeString_utf16]
            cases hutf16 : utf16LiteralToUtf8 ('\\' :: 'u' :: s) with
            | none => exact hfail
            | some converted =>
              have hstep := utf16_room hutf16
              rw [Option.bind_some, Option.elim_some, decodeString_skip, ← add_zero {_}]
              refine refines_append (by rw [List.length_map]; omega) fun after' hafter => ?_
              rw [List.length_map] at hafter
              rw [add_zero, decodeStores_skip]
              have hshorter : (('u' :: s).drop (converted.2 - 1)).length < n := by
                rw [List.length_drop]
                simp only [List.length_cons] at hlength ⊢
                omega
              have hrest := @ih _ hshorter (('u' :: s).drop (converted.2 - 1))
                (before ++ (converted.1.map Cell.char).map some) after' (by omega) rfl
              rw [List.length_append, List.length_map, List.length_map] at hrest
              exact hrest.done fun _ _ h => h.append
          · rw [decodeStores_escape he, decodeString_escape he]
            rw [room] at hroom
            cases hescape : unescape e with
            | none => exact hfail
            | some c =>
              exact hone c s (by simp at hlength; omega) (by omega)
      · rw [decodeStores_plain hc, decodeString_plain hc]
        rw [room_plain hc] at hroom
        exact hone c s (by simp at hlength; omega) hroom

/-! ### The string that is made -/

/-- A block that begins with characters and a terminator is a string up to the first NUL. -/
theorem exists_str (b : Nat) (bytes : CString) (slack : List (Option Cell)) :
    ∃ str : Str, str.block = b ∧ str.text = upToNul bytes ∧
      str.cells = bytes.map (fun c => some (.char c)) ++ some (.char '\x00') :: slack := by
  induction bytes with
  | nil => exact ⟨⟨b, [], slack, by simp⟩, rfl, rfl, rfl⟩
  | cons c bytes ih =>
    by_cases hc : c = '\x00'
    · subst hc
      exact ⟨⟨b, [], bytes.map (fun c => some (.char c)) ++ some (.char '\x00') :: slack, by simp⟩,
        rfl, rfl, rfl⟩
    · obtain ⟨⟨b, text, slack', hnul⟩, rfl, rfl, hcells⟩ := ih
      refine ⟨⟨b, c :: upToNul bytes, slack', ?_⟩, rfl, ?_,
        congrArg (some (Cell.char c) :: ·) hcells⟩
      · rw [List.mem_cons, not_or]
        exact ⟨Ne.symm hc, hnul⟩
      · exact (List.takeWhile_cons_of_pos (by simpa using hc)).symm

/-- What `parse_string` leaves of an item. -/
def StringRead (b : Nat) (n : Node) (r : Option CString) (v : Option (CString × CString))
    (m : Footprint Cell) : Prop :=
  (r = none ∧ v = none ∧ m = entry b n) ∨
    ∃ (str : Str) (rest : CString), r = some rest ∧ v = some (str.text, rest) ∧
      m = entry b { n with type := cJSON_String, valuestring := some str.block } + str.footprint

theorem parseString_of_not {s : CString} (h : ∀ rest, s ≠ '"' :: rest) (item : Option Nat) :
    parseString item s = pure none ∧ Audd.parseString s = pure none := by
  constructor
  · unfold parseString
    split
    · exact absurd rfl (h _)
    · rfl
  · unfold Audd.parseString
    split
    · exact absurd rfl (h _)
    · rfl

theorem refines_parseString (s : CString) (b : Nat) (n : Node) :
    Refines (entry b n) (parseString (some b) s) (Audd.parseString s) (StringRead b n) := by
  have hfail : Refines (entry b n) (pure (none : Option CString))
      (pure (none : Option (CString × CString))) (StringRead b n) :=
    Refines.pure (.inl ⟨rfl, rfl, rfl⟩)
  by_cases hquote : ∃ rest, s = '"' :: rest
  · obtain ⟨s, rfl⟩ := hquote
    rw [parseString, Audd.parseString]
    cases hscan : scanString s with
    | none => exact hfail
    | some scanned =>
      obtain ⟨text, rest⟩ := scanned
      dsimp only
      rw [← zero_add (entry b n)]
      refine Refines.bind (m := 0) (Q := fun p r m' => (p = none ∧ r = none ∧ m' = 0) ∨
        ∃ c, p = some ⟨c, (0 : Nat)⟩ ∧ r = some () ∧
          m' = {(c, List.replicate (text.length + 1 - skippedBytes text + 1) none)})
        (refines_malloc (.inl ⟨rfl, rfl, rfl⟩) fun c => .inr ⟨c, rfl, rfl, add_zero _⟩) ?_
      rintro p r m' (⟨rfl, rfl, rfl⟩ | ⟨c, rfl, rfl, rfl⟩)
      · rw [zero_add]
        exact hfail
      · have hroom := room_add_skipped text
        dsimp only
        refine Refines.seq (@refines_decodeStores text c []
          (List.replicate (text.length + 1 - skippedBytes text + 1) none)
          (by rw [List.length_replicate]; omega)) ?_
        rintro p m' (⟨rfl, hdecode, block, rfl⟩ | ⟨bytes, after, rfl, hdecode, hafter, rfl⟩)
        · rw [hdecode]
          exact refines_release hfail
        · rw [hdecode]
          dsimp only
          have hlength : (List.length ([] : List (Option Cell)) + bytes.length : Nat) =
              ([] ++ bytes.map fun c => some (Cell.char c)).length := by simp
          rw [hlength]
          refine refines_append hafter fun after' _ => ?_
          obtain ⟨str, rfl, htext, hcells⟩ := exists_str c bytes after'
          refine Refines.cast (n := entry b n + str.footprint) ?_
            (refines_update (Refines.pure (.inr ⟨str, rest, rfl, by rw [htext]; rfl, rfl⟩)))
          rw [Str.footprint, hcells, add_comm]
          simp
  · have hnot := parseString_of_not (fun rest h => hquote ⟨rest, h⟩) (some b)
    rw [hnot.1, hnot.2]
    exact hfail

end

end Items

end Audd
