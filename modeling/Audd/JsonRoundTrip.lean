import Audd.JsonPrinted

/-! Parsing what was printed.  A tree that the parser built prints as JSON, which parses into the
same tree but for its numbers: those are read back from the digits that were printed of them. -/

namespace Audd

open JsonText (Text Part)

/-! ### What a tree holds -/

namespace CJson

mutual

/-- How deep arrays and objects lie in each other. -/
def nesting : CJson → Nat
  | array items => nestingItems items + 1
  | object members => nestingMembers members + 1
  | _ => 0

def nestingItems : List CJson → Nat
  | [] => 0
  | item :: items => max (nesting item) (nestingItems items)

def nestingMembers : List (CString × CJson) → Nat
  | [] => 0
  | (_, item) :: members => max (nesting item) (nestingMembers members)

end

mutual

def numbers : CJson → List CDouble
  | number d => [d]
  | array items => numbersItems items
  | object members => numbersMembers members
  | _ => []

def numbersItems : List CJson → List CDouble
  | [] => []
  | item :: items => numbers item ++ numbersItems items

def numbersMembers : List (CString × CJson) → List CDouble
  | [] => []
  | (_, item) :: members => numbers item ++ numbersMembers members

end

mutual

/-- Its strings and its names. -/
def strings : CJson → List CString
  | string s => [s]
  | array items => stringsItems items
  | object members => stringsMembers members
  | _ => []

def stringsItems : List CJson → List CString
  | [] => []
  | item :: items => strings item ++ stringsItems items

def stringsMembers : List (CString × CJson) → List CString
  | [] => []
  | (name, item) :: members => name :: (strings item ++ stringsMembers members)

end

end CJson

/-- The number that its printed text is read back as: an infinity prints as `null`. -/
def rereadNumber (p : Platform) (d : CDouble) : CJson :=
  match strtodText p (printNumber p d) with
  | some (some d, _) => .number d
  | _ => .null

mutual

def reread (p : Platform) : CJson → CJson
  | .number d => rereadNumber p d
  | .array items => .array (rereadItems p items)
  | .object members => .object (rereadMembers p members)
  | v => v

def rereadItems (p : Platform) : List CJson → List CJson
  | [] => []
  | item :: items => reread p item :: rereadItems p items

def rereadMembers (p : Platform) : List (CString × CJson) → List (CString × CJson)
  | [] => []
  | (name, item) :: members => (name, reread p item) :: rereadMembers p members

end

/-- A tree whose numbers are doubles and whose strings are C strings. -/
structure Printable (v : CJson) : Prop where
  numbers : ∀ d ∈ v.numbers, d.Ranged
  strings : ∀ s ∈ v.strings, '\x00' ∉ s

/-! ### What is printed is a text -/

section

variable {p : Platform}

theorem upToNul_eq {s : CString} (h : '\x00' ∉ s) : upToNul s = s :=
  List.takeWhile_eq_self_iff.2 fun c hc => by
    rw [decide_eq_true_eq]
    rintro rfl
    exact h hc

theorem printNumber_text {n : Nat} {d : CDouble} (hd : d.Ranged) :
    Text (treeValues p) jsonRules n (.value (rereadNumber p d)) (printNumber p d) := by
  cases d with
  | infinite negative => exact .null
  | finite q =>
    obtain ⟨x, hx, htext⟩ := printNumber_numeral p q
    have hlength := length_printNumber_le p hd
    have hread := strtodText_numeral p hx.toWellFormed
    rw [← htext] at hlength
    rw [rereadNumber, ← htext, hread]
    exact .number ⟨hx, hlength⟩

theorem printString_text {n : Nat} {s : CString} (hs : '\x00' ∉ s) :
    Text (treeValues p) jsonRules n (.value (.string s)) (printString s) := by
  have htext : Text (treeValues p) jsonRules n (.value (.string (upToNul s))) (printString s) :=
    .string (printString_quoted s)
  rwa [upToNul_eq hs] at htext

theorem blanks_nil : jsonRules.Blanks [] := fun _ h => by cases h

mutual

theorem printUnformatted_text : ∀ (v : CJson), (∀ d ∈ v.numbers, d.Ranged) →
    (∀ s ∈ v.strings, '\x00' ∉ s) →
    Text (treeValues p) jsonRules v.nesting (.value (reread p v)) (printUnformatted p v)
  | .null, _, _ => .null
  | .bool true, _, _ => .true
  | .bool false, _, _ => .false
  | .number d, hd, _ => printNumber_text (hd d (List.mem_singleton_self d))
  | .string s, _, hs => printString_text (hs s (List.mem_singleton_self s))
  | .array items, hd, hs => .array (printItems_text items hd hs)
  | .object members, hd, hs => .object (printMembers_text members hd hs)

theorem printItems_text : ∀ (items : List CJson), (∀ d ∈ CJson.numbersItems items, d.Ranged) →
    (∀ s ∈ CJson.stringsItems items, '\x00' ∉ s) →
    Text (treeValues p) jsonRules (CJson.nestingItems items) (.items (rereadItems p items))
      (printItems p items ++ [']'])
  | [], _, _ => .noItems blanks_nil
  | item :: items, hd, hs => by
    have hitem := printUnformatted_text item (fun d h => hd d (List.mem_append_left _ h))
      fun s h => hs s (List.mem_append_left _ h)
    have hitems := printItems_text items (fun d h => hd d (List.mem_append_right _ h))
      fun s h => hs s (List.mem_append_right _ h)
    have hitem' := hitem.mono .refl (Nat.le_max_left _ (CJson.nestingItems items))
    have hitems' := hitems.mono .refl (Nat.le_max_right item.nesting _)
    cases items with
    | nil => exact .lastItem blanks_nil hitem' blanks_nil
    | cons next items =>
      rw [printItems_cons, List.append_assoc]
      exact .item blanks_nil hitem' blanks_nil (List.cons_ne_nil _ _) hitems'

theorem printMembers_text : ∀ (members : List (CString × CJson)),
    (∀ d ∈ CJson.numbersMembers members, d.Ranged) →
    (∀ s ∈ CJson.stringsMembers members, '\x00' ∉ s) →
    Text (treeValues p) jsonRules (CJson.nestingMembers members)
      (.members (rereadMembers p members)) (printMembers p members ++ ['}'])
  | [], _, _ => .noMembers blanks_nil
  | (name, item) :: members, hd, hs => by
    have hitem := printUnformatted_text item (fun d h => hd d (List.mem_append_left _ h))
      fun s h => hs s (List.mem_cons_of_mem _ (List.mem_append_left _ h))
    have hmembers := printMembers_text members (fun d h => hd d (List.mem_append_right _ h))
      fun s h => hs s (List.mem_cons_of_mem _ (List.mem_append_right _ h))
    have hitem' := hitem.mono .refl (Nat.le_max_left _ (CJson.nestingMembers members))
    have hmembers' := hmembers.mono .refl (Nat.le_max_right item.nesting _)
    have hquoted : jsonRules.quoted name (printString name) := printString_quoted name
    have hcut : (treeValues p).name name = name := upToNul_eq (hs name List.mem_cons_self)
    rw [printMembers_cons, List.append_assoc, List.cons_append, List.append_assoc]
    cases members with
    | nil =>
      have hlast := Text.lastMember blanks_nil hquoted blanks_nil blanks_nil hitem' blanks_nil
      rwa [hcut] at hlast
    | cons next members =>
      have hmember := Text.member blanks_nil hquoted blanks_nil blanks_nil hitem' blanks_nil
        (List.cons_ne_nil _ _) hmembers'
      rwa [hcut] at hmember

end

/-- What was printed of a tree is parsed into the tree with its numbers reread. -/
theorem parse_printUnformatted {v : CJson} (hv : Printable v) (hnesting : v.nesting ≤ kNestingLimit)
    {rest : CString} (hrest : ∀ c ∈ rest.head?, isNumberChar c = false) :
    (parseWithLength p (printUnformatted p v ++ rest)).ok = some (reread p v) :=
  parse_of_cjsonText (w := []) (jsonRules_le.blanks blanks_nil)
    ((printUnformatted_text v hv.numbers hv.strings).mono jsonRules_le hnesting)
    (numeralEnds_of_stop hrest)

/-- An object of one infinity, with a comma behind it: the infinity is read back as `null`. -/
theorem parse_printUnformatted_infinity :
    (parseWithLength .exact (printUnformatted .exact
      (.object [(['a'], .number (.infinite false))]) ++ [','])).ok =
      some (.object [(['a'], .null)]) :=
  parse_printUnformatted (p := .exact) (v := .object [(['a'], .number (.infinite false))])
    ⟨by simp [CJson.numbers, CJson.numbersMembers, CDouble.Ranged],
      by simp [CJson.strings, CJson.stringsMembers]⟩
    (by simp [CJson.nesting, CJson.nestingMembers, kNestingLimit])
    (by rintro c ⟨⟩; rfl)

/-! ### The trees that the parser builds -/

theorem nul_notMem_upToNul (s : CString) : '\x00' ∉ upToNul s := by
  intro h
  unfold upToNul at h
  have hkeep := List.mem_takeWhile_imp h
  simp at hkeep

/-- What the parser puts into a part that nests at most `n` deep. -/
structure Built (p : Platform) (n nesting : Nat) (numbers : List CDouble)
    (strings : List CString) : Prop where
  nesting : nesting ≤ n
  numbers : ∀ d ∈ numbers, ∃ q, d = p.round q
  strings : ∀ s ∈ strings, '\x00' ∉ s

def BuiltPart (p : Platform) (n : Nat) : Part CJson CString → Prop
  | .value v => Built p n v.nesting v.numbers v.strings
  | .items vs =>
    Built p n (CJson.nestingItems vs) (CJson.numbersItems vs) (CJson.stringsItems vs)
  | .members ms =>
    Built p n (CJson.nestingMembers ms) (CJson.numbersMembers ms) (CJson.stringsMembers ms)

namespace Built

variable {n k k' : Nat} {ds ds' : List CDouble} {ss ss' : List CString}

theorem leaf : Built p n 0 [] [] := ⟨Nat.zero_le n, by simp, by simp⟩

theorem succ (h : Built p n k ds ss) : Built p (n + 1) (k + 1) ds ss :=
  ⟨Nat.succ_le_succ h.nesting, h.numbers, h.strings⟩

theorem append (h : Built p n k ds ss) (h' : Built p n k' ds' ss') :
    Built p n (max k k') (ds ++ ds') (ss ++ ss') :=
  ⟨Nat.max_le.2 ⟨h.nesting, h'.nesting⟩, List.forall_mem_append.2 ⟨h.numbers, h'.numbers⟩,
    List.forall_mem_append.2 ⟨h.strings, h'.strings⟩⟩

theorem name (h : Built p n k ds ss) (content : CString) :
    Built p n k ds (upToNul content :: ss) :=
  ⟨h.nesting, h.numbers, List.forall_mem_cons.2 ⟨nul_notMem_upToNul content, h.strings⟩⟩

end Built

theorem builtPart_of_text {n : Nat} {part : Part CJson CString} {t : CString}
    (h : Text (treeValues p) cjsonRules n part t) : BuiltPart p n part := by
  induction h with
  | null => exact .leaf
  | false => exact .leaf
  | true => exact .leaf
  | number => exact ⟨Nat.zero_le _, List.forall_mem_singleton.2 ⟨_, rfl⟩, fun _ h => by cases h⟩
  | string => exact Built.leaf.name _
  | array _ ih => exact Built.succ ih
  | object _ ih => exact Built.succ ih
  | noItems => exact .leaf
  | lastItem _ _ _ ih => exact Built.append ih .leaf
  | item _ _ _ _ _ ih ih' => exact Built.append ih ih'
  | noMembers => exact .leaf
  | lastMember _ _ _ _ _ _ ih => exact (Built.append ih .leaf).name _
  | member _ _ _ _ _ _ _ _ ih ih' => exact (Built.append ih ih').name _

/-- A tree that the parser built can be printed, and nests no deeper than the parser goes. -/
theorem parsed_printable (hround : ∀ q, (p.round q).Ranged) {s : CString} {v : CJson}
    (h : (parseWithLength p s).ok = some v) : Printable v ∧ v.nesting ≤ kNestingLimit := by
  obtain ⟨w, t, rest, -, -, htext, -⟩ := text_of_parse h
  obtain ⟨hnesting, hnumbers, hstrings⟩ := builtPart_of_text htext
  refine ⟨⟨fun d hd => ?_, hstrings⟩, hnesting⟩
  obtain ⟨q, rfl⟩ := hnumbers d hd
  exact hround q

/-- Printing what was parsed and parsing it again changes numbers only. -/
theorem reparse_parsed (hround : ∀ q, (p.round q).Ranged) {s : CString} {v : CJson}
    (h : (parseWithLength p s).ok = some v) :
    (parseWithLength p (printUnformatted p v)).ok = some (reread p v) := by
  obtain ⟨hv, hnesting⟩ := parsed_printable hround h
  have hparse : (parseWithLength p ([] ++ (printUnformatted p v ++ []))).ok =
      some (reread p v) :=
    parse_of_cjsonText (jsonRules_le.blanks blanks_nil)
      ((printUnformatted_text v hv.numbers hv.strings).mono jsonRules_le hnesting)
      (numeralEnds_of_stop (by simp))
  rwa [List.append_nil, List.nil_append] at hparse

mutual

/-- The tree comes back as it was when each of its numbers does. -/
theorem reread_eq_self_iff : ∀ v : CJson,
    reread p v = v ↔ ∀ d ∈ v.numbers, rereadNumber p d = .number d
  | .null => by simp [reread, CJson.numbers]
  | .bool b => by simp [reread, CJson.numbers]
  | .number d => by simp [reread, CJson.numbers]
  | .string s => by simp [reread, CJson.numbers]
  | .array items => by
    simp only [reread, CJson.numbers, CJson.array.injEq]
    exact rereadItems_eq_self_iff items
  | .object members => by
    simp only [reread, CJson.numbers, CJson.object.injEq]
    exact rereadMembers_eq_self_iff members

theorem rereadItems_eq_self_iff : ∀ items : List CJson,
    rereadItems p items = items ↔ ∀ d ∈ CJson.numbersItems items, rereadNumber p d = .number d
  | [] => by simp [rereadItems, CJson.numbersItems]
  | item :: items => by
    simp only [rereadItems, CJson.numbersItems, List.cons.injEq, List.forall_mem_append]
    exact and_congr (reread_eq_self_iff item) (rereadItems_eq_self_iff items)

theorem rereadMembers_eq_self_iff : ∀ members : List (CString × CJson),
    rereadMembers p members = members ↔
      ∀ d ∈ CJson.numbersMembers members, rereadNumber p d = .number d
  | [] => by simp [rereadMembers, CJson.numbersMembers]
  | (name, item) :: members => by
    simp only [rereadMembers, CJson.numbersMembers, List.cons.injEq, Prod.mk.injEq, true_and,
      List.forall_mem_append]
    exact and_congr (reread_eq_self_iff item) (rereadMembers_eq_self_iff members)

end

end

end Audd
