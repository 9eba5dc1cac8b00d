import Audd.JsonStringItems

/-! `cJSON_ParseWithLength` in memory.  The items of a list are linked one behind the other while
they are parsed, and deleted when one of them fails.  It refines the parser of trees: with the same
requests, it builds items that stand for the tree, or leaves the memory as it was. -/

namespace Audd

namespace Items

open HeapM

/-! ### The parser -/

/-- A new item behind the last one of a list.  The result is the head of the list. -/
def attach (head current new : Option Nat) : HeapM Cell (Option Nat) :=
  match head with
  | none => pure new
  | some _ => do
    update current fun n => { n with next := new }
    update new fun n => { n with prev := current }
    pure head

/-- The end of `parse_array` and of `parse_object`: the item gets the list, or it is deleted. -/
def closeList (item : Option Nat) (type : Nat) (head current : Option Nat)
    (ending : Option CString) : HeapM Cell (Option CString) :=
  match ending with
  | none => do
    whenever (head ≠ none) (delete head)
    pure none
  | some rest => do
    whenever (head ≠ none) (update head fun n => { n with prev := current })
    update item fun n => { n with type, child := head }
    pure (some rest)

section

variable (p : Platform)

mutual

/-- `parse_value`, into an item: what is left of the text. -/
def parseValue : Nat → Nat → Option Nat → CString → HeapM Cell (Option CString)
  | 0, _, _, _ => pure none
  | fuel + 1, depth, item, s =>
    if s.take 4 = "null" then do
      update item fun n => { n with type := cJSON_NULL }
      pure (some (s.drop 4))
    else if s.take 5 = "false" then do
      update item fun n => { n with type := cJSON_False }
      pure (some (s.drop 5))
    else if s.take 4 = "true" then do
      update item fun n => { n with type := cJSON_True }
      pure (some (s.drop 4))
    else
      match s with
      | [] => pure none
      | c :: rest =>
        if c = '"' then parseString item s
        else if c = '-' ∨ c.isDigit then
          match parseNumber p s with
          | none => pure none
          | some (number, rest) => do
            update item fun n => { n with valuedouble := number, type := cJSON_Number }
            pure (some rest)
        else if c = '[' then
          if depth ≥ kNestingLimit then pure none
          else
            match bufferSkipWhitespace rest with
            | [] => pure none
            | ']' :: rest => closeList item cJSON_Array none none (some rest)
            | inner => do
              let (head, current, ending) ← parseItems fuel (depth + 1) none none inner
              closeList item cJSON_Array head current ending
        else if c = '{' then
          if depth ≥ kNestingLimit then pure none
          else
            match bufferSkipWhitespace rest with
            | [] => pure none
            | '}' :: rest => closeList item cJSON_Object none none (some rest)
            | inner => do
              let (head, current, ending) ← parseMembers fuel (depth + 1) none none inner
              closeList item cJSON_Object head current ending
        else pure none

/-- The loop of `parse_array`, with the head of the list and its last item: these, and what is left
of the text when the list is complete. -/
def parseItems : Nat → Nat → Option Nat → Option Nat → CString →
    HeapM Cell (Option Nat × Option Nat × Option CString)
  | 0, _, head, current, _ => pure (head, current, none)
  | fuel + 1, depth, head, current, s => do
    let new ← newItem
    if new = none then pure (head, current, none)
    else do
      let head ← attach head current new
      match ← parseValue fuel depth new (bufferSkipWhitespace s) with
      | none => pure (head, new, none)
      | some rest =>
        match bufferSkipWhitespace rest with
        | ',' :: rest => parseItems fuel depth head new rest
        | ']' :: rest => pure (head, new, some rest)
        | _ => pure (head, new, none)

/-- The loop of `parse_object`, likewise. -/
def parseMembers : Nat → Nat → Option Nat → Option Nat → CString →
    HeapM Cell (Option Nat × Option Nat × Option CString)
  | 0, _, head, current, _ => pure (head, current, none)
  | fuel + 1, depth, head, current, s => do
    let new ← newItem
    if new = none then pure (head, current, none)
    else do
      let head ← attach head current new
      if s = [] then pure (head, new, none)
      else do
        match ← parseString new (bufferSkipWhitespace s) with
        | none => pure (head, new, none)
        | some rest => do
          -- the string that was parsed is the name
          let name ← node new
          update new fun n => { n with string := name.valuestring, valuestring := none }
          match bufferSkipWhitespace rest with
          | ':' :: rest => do
            match ← parseValue fuel depth new (bufferSkipWhitespace rest) with
            | none => pure (head, new, none)
            | some rest =>
              match bufferSkipWhitespace rest with
              | ',' :: rest => parseMembers fuel depth head new rest
              | '}' :: rest => pure (head, new, some rest)
              | _ => pure (head, new, none)
          | _ => pure (head, new, none)

end

/-- `cJSON_ParseWithLength`. -/
def parseWithLength (value : CString) : HeapM Cell (Option Nat) :=
  if value = [] then pure none
  else do
    let item ← newItem
    if item = none then pure none
    else
      match ← parseValue p (2 * value.length + 2) 0 item
          (bufferSkipWhitespace (skipUtf8Bom value)) with
      | none => do
        delete item
        pure none
      | some _ => pure item

end

/-! ### What the parts leave -/

/-- An item before its value is parsed. -/
def blank (name : Option Str) (type : Nat) (prev next : Option Nat) : Node :=
  { Node.zero with type, prev, next, string := name.map Str.block }

/-- What parsing a value leaves of an item. -/
def ValueRead (b : Nat) (name : Option Str) (type : Nat) (prev next : Option Nat)
    (r : Option CString) (v : Option (CJson × CString)) (m : Footprint Cell) : Prop :=
  (r = none ∧ v = none ∧ m = entry b (blank name type prev next)) ∨
    ∃ (x : Item) (rest : CString), x.block = b ∧ r = some rest ∧ v = some (x.value, rest) ∧
      m = entry b (x.node name prev next) + x.rest

/-- What a loop leaves of a list that was `before`. -/
def ListRead {χ ν : Type} (links : List χ → List Link) (values : List χ → List ν)
    (before : List Link) (r : Option Nat × Option Nat × Option CString)
    (v : Option (List ν × CString)) (m : Footprint Cell) : Prop :=
  (r.2.2 = none ∧ v = none ∧ ∃ ls : List Link, r.1 = first ls ∧ (∀ l ∈ ls, l.Free) ∧
      m = chain none none ls) ∨
    ∃ (xs : List χ) (rest : CString), links xs ≠ [] ∧
      r = (first (before ++ links xs), last (before ++ links xs), some rest) ∧
      v = some (values xs, rest) ∧ m = chain none none (before ++ links xs)

section

variable {p : Platform} {b : Nat} {name : Option Str} {type : Nat} {prev next : Option Nat}

theorem refines_closeList {χ ν : Type} {links : List χ → List Link} {values : List χ → List ν}
    {r : Option Nat × Option Nat × Option CString} {v : Option (List ν × CString)}
    {m : Footprint Cell} (hr : ListRead links values [] r v m) {g : List χ → Item}
    {tree : List ν → CJson} {listType : Nat} (hblock : ∀ xs, (g xs).block = b)
    (hvalue : ∀ xs, (g xs).value = tree (values xs))
    (hnode : ∀ xs, (g xs).node name prev next =
      { blank name type prev next with type := listType, child := first (links xs) })
    (hrest : ∀ xs, (g xs).rest = chain (last (links xs)) none (links xs)) :
    Refines (m + entry b (blank name type prev next)) (closeList (some b) listType r.1 r.2.1 r.2.2)
      (pure (v.map fun x => (tree x.1, x.2))) (ValueRead b name type prev next) := by
  obtain ⟨hnone, rfl, ls, hfirst, hfree, rfl⟩ | ⟨xs, rest, hxs, rfl, rfl, rfl⟩ := hr
  · rw [hnone, hfirst, closeList]
    have hdelete := delete_deletes (deletable_chain hfree none)
    have hfail : Refines (0 + entry b (blank name type prev next)) (pure (none : Option CString))
        (pure (none : Option (CJson × CString))) (ValueRead b name type prev next) :=
      Refines.pure (.inl ⟨rfl, rfl, zero_add _⟩)
    cases ls with
    | nil =>
      rw [whenever_neg (by simp [first])]
      exact hfail
    | cons l ls =>
      rw [whenever_pos (by simp)]
      refine Refines.seq hdelete ?_
      rintro _ _ rfl
      exact hfail
  · obtain ⟨l, ls, hlinks⟩ : ∃ l ls, links xs = l :: ls := List.exists_cons_of_ne_nil hxs
    rw [closeList, List.nil_append, whenever_pos (by simp [hlinks]), hlinks]
    refine refines_setPrev (Refines.cast (add_comm _ _) (refines_update (Refines.pure ?_)))
    refine .inr ⟨g xs, rest, hblock xs, rfl, by rw [hvalue]; rfl, ?_⟩
    rw [hnode, hrest, hlinks]

/-! ### Values -/

theorem refines_stringValue (s : CString) : Refines (entry b (blank name type prev next))
    (parseString (some b) s)
    (Audd.parseString s >>= fun r => pure (r.map fun x => (CJson.string x.1, x.2)))
    (ValueRead b name type prev next) := by
  have hstring := refines_parseString s b (blank name type prev next)
  rw [← bind_pure (parseString (some b) s), ← add_zero (entry b _)]
  refine Refines.bind hstring ?_
  rintro r v m (⟨rfl, rfl, rfl⟩ | ⟨str, rest, rfl, rfl, rfl⟩)
  · exact Refines.pure (.inl ⟨rfl, rfl, add_zero _⟩)
  · refine Refines.pure (.inr ⟨.string b str (.finite 0), rest, rfl, rfl, rfl, ?_⟩)
    show _ = entry b _ + (0 + str.footprint)
    rw [add_zero, zero_add]
    rfl

theorem refines_emptyList {x : Item} {listType : Nat} (rest : CString) (hblock : x.block = b)
    (hnode : x.node name prev next =
      { blank name type prev next with type := listType, child := none }) (hrest : x.rest = 0) :
    Refines (entry b (blank name type prev next))
      (closeList (some b) listType none none (some rest)) (pure (some (x.value, rest)))
      (ValueRead b name type prev next) := by
  rw [closeList, whenever_neg (by simp), pure_bind, ← add_zero (entry b _)]
  refine refines_update (Refines.pure (.inr ⟨x, rest, hblock, rfl, rfl, ?_⟩))
  rw [hnode, hrest]

theorem refines_leaf {x : Item} {g : Node → Node} (rest : CString) (hblock : x.block = b)
    (hnode : x.node name prev next = g (blank name type prev next)) (hrest : x.rest = 0) :
    Refines (entry b (blank name type prev next))
      (update (some b) g >>= fun _ => pure (some rest)) (pure (some (x.value, rest)))
      (ValueRead b name type prev next) := by
  rw [← add_zero (entry b _)]
  refine refines_update (Refines.pure (.inr ⟨x, rest, hblock, rfl, rfl, ?_⟩))
  rw [hnode, hrest]

end

/-- The readers refine those of trees. -/
structure RefinedReaders (p : Platform) (fuel : Nat) : Prop where
  value : ∀ depth s b name type prev next, Refines (entry b (blank name type prev next))
    (parseValue p fuel depth (some b) s) (Audd.parseValue p fuel depth s)
    (ValueRead b name type prev next)
  items : ∀ depth s before, (∀ l ∈ before, Link.Free l) → Refines (chain none none before)
    (parseItems p fuel depth (first before) (last before) s) (Audd.parseItems p fuel depth s)
    (ListRead Item.links Item.values before)
  members : ∀ depth s before, (∀ l ∈ before, Link.Free l) → Refines (chain none none before)
    (parseMembers p fuel depth (first before) (last before) s) (Audd.parseMembers p fuel depth s)
    (ListRead Item.memberLinks Item.memberValues before)

section

variable {p : Platform} {fuel : Nat}

theorem RefinedReaders.parseValue (h : RefinedReaders p fuel) (depth : Nat) (s : CString) (b : Nat)
    (name : Option Str) (type : Nat) (prev next : Option Nat) :
    Refines (entry b (blank name type prev next)) (parseValue p (fuel + 1) depth (some b) s)
      (Audd.parseValue p (fuel + 1) depth s) (ValueRead b name type prev next) := by
  have hfail : Refines (entry b (blank name type prev next)) (pure (none : Option CString))
      (pure (none : Option (CJson × CString))) (ValueRead b name type prev next) :=
    Refines.pure (.inl ⟨rfl, rfl, rfl⟩)
  cases s with
  | nil => exact hfail
  | cons c s =>
    rw [Items.parseValue, Audd.parseValue]
    simp only
    split_ifs
    · exact refines_leaf _ (x := .null b) rfl rfl rfl
    · exact refines_leaf _ (x := .bool b false) rfl rfl rfl
    · exact refines_leaf _ (x := .bool b true) rfl rfl rfl
    · exact refines_stringValue _
    · cases hnumber : parseNumber p (c :: s) with
      | none => exact hfail
      | some number => exact refines_leaf _ (x := .number b number.1) rfl rfl rfl
    · exact hfail
    · generalize bufferSkipWhitespace s = inner
      cases inner with
      | nil => exact hfail
      | cons c' inner =>
        by_cases hc' : c' = ']'
        · subst hc'
          exact refines_emptyList (x := .array b []) _ rfl rfl rfl
        · simp only [List.cons.injEq, hc', false_and, imp_self, implies_true]
          refine Refines.cast (zero_add _).symm
            (Refines.bind (h.items (depth + 1) _ [] (List.forall_mem_nil _)) ?_)
          intro r v m hr
          exact refines_closeList (g := .array b) hr (fun _ => rfl) (fun _ => rfl) (fun _ => rfl)
            fun _ => add_zero _
    · exact hfail
    · generalize bufferSkipWhitespace s = inner
      cases inner with
      | nil => exact hfail
      | cons c' inner =>
        by_cases hc' : c' = '}'
        · subst hc'
          exact refines_emptyList (x := .object b []) _ rfl rfl rfl
        · simp only [List.cons.injEq, hc', false_and, imp_self, implies_true]
          refine Refines.cast (zero_add _).symm
            (Refines.bind (h.members (depth + 1) _ [] (List.forall_mem_nil _)) ?_)
          intro r v m hr
          exact refines_closeList (g := .object b) hr (fun _ => rfl) (fun _ => rfl) (fun _ => rfl)
            fun _ => add_zero _
    · exact hfail

/-! ### Lists -/

variable {before : List Link}

/-- A child that is parsed behind others, whose value is still to come. -/
def pending (b : Nat) (name : Option Str) (type : Nat) : Link :=
  ⟨b, blank name type none none, optional name⟩

theorem free_pending (b : Nat) (name : Option Str) {type : Nat} (hreference : type &&& 256 = 0)
    (hconst : type &&& 512 = 0) : (pending b name type).Free where
  reference := hreference
  const := hconst
  owned := ⟨none, name, 0, rfl, rfl, .nil, by rw [optional_none, zero_add, add_zero]; rfl⟩

/-- The children that were there, and the new one. -/
theorem chain_pending (b : Nat) (name : Option Str) (type : Nat) :
    chain none none (before ++ [pending b name type]) =
      entry b (blank name type (last before) none) +
        (optional name + chain none (some b) before) := by
  rw [chain_concat, Option.or_none]
  rfl

theorem chain_link (x : Item) (name : Option Str) :
    chain none none (before ++ [x.link name]) = entry x.block (x.node name (last before) none) +
      x.rest + (optional name + chain none (some x.block) before) := by
  have hcells := x.cells_link name (last before) none
  rw [Link.cells, Item.link_block, add_comm (optional name), ← add_assoc] at hcells
  rw [chain_concat, Option.or_none, Item.link_block, ← add_assoc, hcells, add_assoc]

theorem refines_attach {α β : Type} {m : Footprint Cell} {y : AllocM β}
    {Q : α → β → Footprint Cell → Prop} {f : Option Nat → HeapM Cell α} {b : Nat}
    (hf : Refines (chain none none (before ++ [pending b none 0]) + m)
      (f (first (before ++ [pending b none 0]))) y Q) :
    Refines (entry b .zero + chain none none before + m)
      (attach (first before) (last before) (some b) >>= f) y Q := by
  rw [chain_pending, optional_none, zero_add, first_append] at hf
  rcases before.eq_nil_or_concat' with rfl | ⟨before, l, rfl⟩
  · exact hf
  · obtain ⟨a, ha⟩ : ∃ a, first (before ++ [l]) = some a := by
      rw [first_append]
      cases first before with
      | none => exact ⟨l.block, rfl⟩
      | some a => exact ⟨a, rfl⟩
    rw [ha, last_concat] at hf ⊢
    simp only [attach, bind_assoc]
    refine Refines.cast (n := chain none none (before ++ [l]) + (entry b .zero + m)) (by abel)
      (refines_setNext ?_)
    refine Refines.cast (n := entry b .zero + (chain none (some b) (before ++ [l]) + m)) (by abel)
      (refines_update ?_)
    rw [← add_assoc]
    exact hf

theorem free_concat {l : Link} (hbefore : ∀ l ∈ before, Link.Free l) (hl : l.Free) :
    ∀ l' ∈ before ++ [l], l'.Free :=
  List.forall_mem_append.2 ⟨hbefore, by simpa using hl⟩

/-- What a loop leaves when it fails with one more child. -/
theorem refines_listFail {χ ν : Type} {links : List χ → List Link} {values : List χ → List ν}
    {l : Link} (hbefore : ∀ l ∈ before, Link.Free l) (hl : l.Free) (current : Option Nat) :
    Refines (chain none none (before ++ [l])) (pure (first (before ++ [l]), current, none))
      (pure (none : Option (List ν × CString))) (ListRead links values before) :=
  Refines.pure (.inl ⟨rfl, rfl, _, rfl, free_concat hbefore hl, rfl⟩)

theorem ListRead.cons {χ ν : Type} {links : List χ → List Link} {values : List χ → List ν}
    {l : Link} {x : χ} {value : ν} {r : Option Nat × Option Nat × Option CString}
    {v : Option (List ν × CString)} {m : Footprint Cell}
    (h : ListRead links values (before ++ [l]) r v m)
    (hlinks : ∀ xs, links (x :: xs) = l :: links xs)
    (hvalues : ∀ xs, values (x :: xs) = value :: values xs) :
    ListRead links values before r (v.map fun y => (value :: y.1, y.2)) m := by
  obtain ⟨hnone, rfl, hls⟩ | ⟨xs, rest, -, rfl, rfl, rfl⟩ := h
  · exact .inl ⟨hnone, rfl, hls⟩
  · rw [List.append_assoc, List.singleton_append, ← hlinks]
    exact .inr ⟨x :: xs, rest, by simp [hlinks], rfl, by rw [hvalues]; rfl, rfl⟩

theorem first_link (x : Item) (name : Option Str) (type : Nat) :
    first (before ++ [pending x.block name type]) = first (before ++ [x.link name]) := by
  rw [first_append, first_append, first_cons, first_cons, Item.link_block]
  rfl

theorem RefinedReaders.parseItems (h : RefinedReaders p fuel) (depth : Nat) (s : CString)
    (before : List Link) (hbefore : ∀ l ∈ before, Link.Free l) :
    Refines (chain none none before) (parseItems p (fuel + 1) depth (first before) (last before) s)
      (Audd.parseItems p (fuel + 1) depth s) (ListRead Item.links Item.values before) := by
  rw [Items.parseItems, Audd.parseItems, ← zero_add (chain none none before)]
  refine Refines.bind (m := 0) (Q := fun p r m' => (p = none ∧ r = none ∧ m' = 0) ∨
    ∃ b, p = some b ∧ r = some () ∧ m' = entry b .zero)
    (refines_newItem (.inl ⟨rfl, rfl, rfl⟩) fun b => .inr ⟨b, rfl, rfl, add_zero _⟩) ?_
  rintro new r m' (⟨rfl, rfl, rfl⟩ | ⟨b, rfl, rfl, rfl⟩)
  · exact Refines.pure (.inl ⟨rfl, rfl, before, rfl, hbefore, zero_add _⟩)
  · rw [if_neg (by simp), ← add_zero (_ + _)]
    refine refines_attach ?_
    rw [add_zero, chain_pending]
    refine Refines.bind (h.value _ _ _ _ _ _ _) ?_
    rintro r v m' (⟨rfl, rfl, rfl⟩ | ⟨x, rest, rfl, rfl, rfl, rfl⟩)
    · rw [← chain_pending]
      exact refines_listFail hbefore (free_pending b none rfl rfl) _
    · rw [← chain_link, first_link x none 0]
      dsimp only
      generalize bufferSkipWhitespace rest = rest
      cases rest with
      | nil => exact refines_listFail hbefore (Item.free_link none x) _
      | cons c rest =>
        by_cases hcomma : c = ','
        · subst hcomma
          have hlast : some x.block = last (before ++ [x.link none]) := by
            rw [last_concat, Item.link_block]
          rw [hlast]
          refine (h.items depth _ _ (free_concat hbefore (Item.free_link none x))).map
            fun _ _ _ hr => ?_
          exact hr.cons (fun _ => rfl) fun _ => rfl
        · by_cases hclose : c = ']'
          · subst hclose
            refine Refines.pure (.inr ⟨[x], _, List.cons_ne_nil _ _, ?_, rfl, rfl⟩)
            show _ = (first (before ++ [x.link none]), last (before ++ [x.link none]), _)
            rw [last_concat, Item.link_block]
          · simp only [List.cons.injEq, hcomma, hclose, false_and, imp_self, implies_true]
            exact refines_listFail hbefore (Item.free_link none x) _

theorem RefinedReaders.parseMembers (h : RefinedReaders p fuel) (depth : Nat) (s : CString)
    (before : List Link) (hbefore : ∀ l ∈ before, Link.Free l) :
    Refines (chain none none before)
      (parseMembers p (fuel + 1) depth (first before) (last before) s)
      (Audd.parseMembers p (fuel + 1) depth s)
      (ListRead Item.memberLinks Item.memberValues before) := by
  rw [Items.parseMembers, Audd.parseMembers, ← zero_add (chain none none before)]
  refine Refines.bind (m := 0) (Q := fun p r m' => (p = none ∧ r = none ∧ m' = 0) ∨
    ∃ b, p = some b ∧ r = some () ∧ m' = entry b .zero)
    (refines_newItem (.inl ⟨rfl, rfl, rfl⟩) fun b => .inr ⟨b, rfl, rfl, add_zero _⟩) ?_
  rintro new r m' (⟨rfl, rfl, rfl⟩ | ⟨b, rfl, rfl, rfl⟩)
  · exact Refines.pure (.inl ⟨rfl, rfl, before, rfl, hbefore, zero_add _⟩)
  · rw [if_neg (by simp), ← add_zero (_ + _)]
    refine refines_attach ?_
    rw [add_zero]
    dsimp only
    have hfail : Refines (chain none none (before ++ [pending b none 0]))
        (pure (first (before ++ [pending b none 0]), some b, none))
        (pure (none : Option (List (CString × CJson) × CString)))
        (ListRead Item.memberLinks Item.memberValues before) :=
      refines_listFail hbefore (free_pending b none rfl rfl) _
    split_ifs
    · exact hfail
    · rw [chain_pending] at hfail ⊢
      refine Refines.bind (refines_parseString _ b _) ?_
      rintro r v m' (⟨rfl, rfl, rfl⟩ | ⟨str, rest, rfl, rfl, rfl⟩)
      · exact hfail
      · dsimp only
        rw [add_assoc]
        refine refines_node (refines_update ?_)
        -- the item has its name now
        have hnamed : chain none none (before ++ [pending b (some str) cJSON_String]) =
            entry b (blank (some str) cJSON_String (last before) none) +
              (str.footprint + (optional none + chain none (some b) before)) := by
          rw [chain_pending, optional_none, zero_add, optional_some]
        have hfirst : first (before ++ [pending b none 0]) =
            first (before ++ [pending b (some str) cJSON_String]) := by
          rw [first_append, first_append]
          rfl
        rw [hfirst]
        have hfail : Refines (chain none none (before ++ [pending b (some str) cJSON_String]))
            (pure (first (before ++ [pending b (some str) cJSON_String]), some b, none))
            (pure (none : Option (List (CString × CJson) × CString)))
            (ListRead Item.memberLinks Item.memberValues before) :=
          refines_listFail hbefore (free_pending b (some str) rfl rfl) _
        refine Refines.cast hnamed.symm ?_
        generalize bufferSkipWhitespace rest = rest
        cases rest with
        | nil => exact hfail
        | cons c rest =>
          by_cases hcolon : c = ':'
          · subst hcolon
            rw [chain_pending] at hfail ⊢
            refine Refines.bind (h.value _ _ _ _ _ _ _) ?_
            rintro r v m' (⟨rfl, rfl, rfl⟩ | ⟨x, rest, rfl, rfl, rfl, rfl⟩)
            · exact hfail
            · rw [← chain_link, first_link]
              dsimp only
              generalize bufferSkipWhitespace rest = rest
              cases rest with
              | nil => exact refines_listFail hbefore (Item.free_link (some str) x) _
              | cons c rest =>
                by_cases hcomma : c = ','
                · subst hcomma
                  have hlast : some x.block = last (before ++ [x.link (some str)]) := by
                    rw [last_concat, Item.link_block]
                  rw [hlast]
                  refine (h.members depth _ _
                    (free_concat hbefore (Item.free_link (some str) x))).map fun _ _ _ hr => ?_
                  exact hr.cons (x := (str, x)) (fun _ => rfl) fun _ => rfl
                · by_cases hclose : c = '}'
                  · subst hclose
                    refine Refines.pure (.inr ⟨[(str, x)], _, List.cons_ne_nil _ _, ?_, rfl, rfl⟩)
                    show _ = (first (before ++ [x.link (some str)]),
                      last (before ++ [x.link (some str)]), _)
                    rw [last_concat, Item.link_block]
                  · simp only [List.cons.injEq, hcomma, hclose, false_and, imp_self, implies_true]
                    exact refines_listFail hbefore (Item.free_link (some str) x) _
          · simp only [List.cons.injEq, hcolon, false_and, imp_self, implies_true]
            exact hfail

end

end Items

end Audd
