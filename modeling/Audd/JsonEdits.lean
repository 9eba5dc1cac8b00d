import Audd.Decode
import Audd.JsonItems
import Audd.JsonPrinted

/-! Lookups and edits of items in memory, as vendor/cJSON and `audd_json.c` make them.  Each refines
what `CJson` says of it: from the blocks of a tree to the blocks of the tree that it leaves. -/

namespace Audd

namespace Items

open HeapM

/-! ### Lookup -/

/-- The loop of `get_object_item`, with case. -/
def lookupFrom (name : CString) : Nat → Option Nat → HeapM Cell (Option Nat)
  | _, none => pure none
  | 0, some _ => fault none
  | fuel + 1, some b => do
    let element ← node (some b)
    match element.string with
    | none => pure none
    | some s => do
      let key ← text (some s)
      if name = key then pure (some b) else lookupFrom name fuel element.next

def lookup (name : CString) (element : Option Nat) : HeapM Cell (Option Nat) :=
  bounded fun fuel => lookupFrom name fuel element

/-- `cJSON_GetObjectItemCaseSensitive`. -/
def getObjectItemCaseSensitive (object : Option Nat) (name : CString) : HeapM Cell (Option Nat) :=
  match object with
  | none => pure none
  | some _ => do
    let o ← node object
    lookup name o.child

/-! ### Removal -/

/-- `cJSON_DetachItemViaPointer`. -/
def detachItemViaPointer (parent item : Option Nat) : HeapM Cell (Option Nat) :=
  if parent = none ∨ item = none then pure none
  else do
    let p ← node parent
    let i ← node item
    -- not the first element
    whenever (item ≠ p.child) (update i.prev fun n => { n with next := i.next })
    let i ← node item
    -- not the last element
    whenever (i.next ≠ none) (update i.next fun n => { n with prev := i.prev })
    let p ← node parent
    let i ← node item
    if item = p.child then update parent fun n => { n with child := i.next }
    else whenever (i.next = none) (update p.child fun n => { n with prev := i.prev })
    update item fun n => { n with prev := none, next := none }
    pure item

/-- `cJSON_DeleteItemFromObjectCaseSensitive`. -/
def deleteItemFromObjectCaseSensitive (object : Option Nat) (name : CString) :
    HeapM Cell Unit := do
  let item ← getObjectItemCaseSensitive object name
  let detached ← detachItemViaPointer object item
  delete detached

/-! ### Addition -/

def addItemToArray (array item : Option Nat) : HeapM Cell Bool :=
  if item = none ∨ array = none ∨ array = item then pure false
  else do
    let a ← node array
    match a.child with
    | none => do
      update array fun n => { n with child := item }
      update item fun n => { n with prev := item, next := none }
      pure true
    | some child => do
      let c ← node (some child)
      whenever (c.prev ≠ none) do
        -- `suffix_object`
        update c.prev fun n => { n with next := item }
        update item fun n => { n with prev := c.prev }
        let a ← node array
        update a.child fun n => { n with prev := item }
      pure true

/-- `cJSON_strdup` and `audd_strdup`. -/
def strdup (s : CString) : HeapM Cell (Option Nat) := do
  match ← malloc (s.length + 1) with
  | none => pure none
  | some p => do
    store p (s.map .char ++ [.char '\x00'])
    pure (some p.block)

/-- `add_item_to_object`, for a key that is not constant. -/
def addItemToObject (object : Option Nat) (key : CString) (item : Option Nat) : HeapM Cell Bool :=
  if object = none ∨ item = none ∨ object = item then pure false
  else do
    match ← strdup key with
    | none => pure false
    | some newKey => do
      let i ← node item
      whenever (i.type &&& cJSON_StringIsConst = 0 ∧ i.string ≠ none) (release i.string)
      update item fun n => { n with
        string := some newKey, type := i.type &&& (2 ^ 32 - 1 - cJSON_StringIsConst) }
      addItemToArray object item

/-- `cJSON_CreateString`. -/
def createString (s : CString) : HeapM Cell (Option Nat) := do
  match ← newItem with
  | none => pure none
  | some b => do
    update (some b) fun n => { n with type := cJSON_String }
    match ← strdup s with
    | none => do
      delete (some b)
      pure none
    | some v => do
      update (some b) fun n => { n with valuestring := some v }
      pure (some b)

/-- `cJSON_AddStringToObject`. -/
def addStringToObject (object : Option Nat) (key s : CString) : HeapM Cell (Option Nat) := do
  let item ← createString s
  let added ← addItemToObject object key item
  if added then pure item
  else do
    delete item
    pure none

/-! ### Coercion -/

def Node.isType (n : Node) (type : Nat) : Bool := n.type &&& 0xFF = type

def Node.isBool (n : Node) : Bool := n.type &&& (cJSON_True ||| cJSON_False) ≠ 0

variable (p : Platform)

/-- What `coerce_node_to_string` renders. -/
def Node.rendered (n : Node) : Option CString :=
  if n.isType cJSON_Number then some (renderNumber p n.valuedouble)
  else if n.isBool then some (if n.isType cJSON_True then "true" else "false" : String).toList
  else none

def coerceNodeToString (it : Option Nat) : HeapM Cell (Option Nat) := do
  let i ← node it
  match i.rendered p with
  | none => pure none
  | some buf => do
    match ← strdup buf with
    | none => pure none
    | some copy => do
      whenever (i.valuestring ≠ none) (release i.valuestring)
      update it fun n => { n with valuestring := some copy, type := cJSON_String }
      pure (some copy)

/-- `audd_json_get_string`: a pointer into the tree. -/
def jsonGetString (obj : Option Nat) (key : CString) : HeapM Cell (Option Nat) :=
  match obj with
  | none => pure none
  | some _ => do
    match ← getObjectItemCaseSensitive obj key with
    | none => pure none
    | some it => do
      let i ← node (some it)
      if i.isType cJSON_String then pure i.valuestring
      else if i.isType cJSON_Number ∨ i.isBool then coerceNodeToString p (some it)
      else pure none

/-! ### What a link of an item shows -/

namespace Item

def members : Item → List (Str × Item)
  | object _ ms => ms
  | _ => []

def children : Item → List Link
  | array _ items => links items
  | object _ ms => memberLinks ms
  | _ => []

/-- The node of an item in a list of children. -/
def node (x : Item) (name : Option Str) (prev next : Option Nat) : Node :=
  { (x.link name).node with prev, next }

/-- A string of the item, besides its name. -/
def text : Item → Option Str
  | string _ s _ => some s
  | _ => none

def type : Item → Nat
  | null _ => cJSON_NULL
  | bool _ b => if b then cJSON_True else cJSON_False
  | number _ _ => cJSON_Number
  | string _ _ _ => cJSON_String
  | array _ _ => cJSON_Array
  | object _ _ => cJSON_Object

/-- What belongs to an item besides its node and its name. -/
def rest (x : Item) : Footprint Cell := chain (last x.children) none x.children + optional x.text

section

variable (x : Item) (name : Option Str) (prev next : Option Nat)

@[simp] theorem link_block : (x.link name).block = x.block := by cases x <;> rfl

@[simp] theorem node_next : (x.node name prev next).next = next := rfl

@[simp] theorem node_prev : (x.node name prev next).prev = prev := rfl

theorem cells_link : (x.link name).cells prev next =
    entry x.block (x.node name prev next) + (optional name + x.rest) := by
  have howned : (x.link name).owned = x.rest + optional name := by
    cases x with
    | array b items =>
      show _ = chain _ none (links items) + 0 + optional name
      rw [add_zero]
      rfl
    | object b ms =>
      show _ = chain _ none (memberLinks ms) + 0 + optional name
      rw [add_zero]
      rfl
    | _ => exact congrArg (· + optional name) (zero_add _).symm
  rw [Link.cells, howned, link_block, add_comm x.rest]
  rfl

end

theorem memberLinks_append (ms ms' : List (Str × Item)) :
    memberLinks (ms ++ ms') = memberLinks ms ++ memberLinks ms' := by
  induction ms with
  | nil => rfl
  | cons m ms ih => exact congrArg (_ :: ·) ih

/-- The first member of a name. -/
def member (key : CString) (x : Item) : Option Item :=
  (x.members.find? fun m => m.1.text = key).map Prod.snd

end Item

/-! ### Lookups refine -/

section

variable {α β : Type} {m : Footprint Cell} {y : AllocM β} {Q : α → β → Footprint Cell → Prop}
  {f : Option Nat → HeapM Cell α} {prev next : Option Nat} {key : CString}

section

variable {as bs : List Link} {l l' n n' : Option Nat} {g : Unit → HeapM Cell α}

end

/-- The requests of `cJSON_CreateString`: the item and its text. -/
def stringRequests : AllocM (Option Unit) := do
  match ← AllocM.copy () with
  | none => pure none
  | some _ => AllocM.copy ()

/-- The requests of `cJSON_AddStringToObject`, the member's name being the last. -/
def stringMemberRequests : AllocM (Option Unit) := do
  match ← stringRequests with
  | none => pure none
  | some _ => AllocM.copy ()

namespace Item

/-- The item without the first member of a name. -/
def erase (key : CString) : Item → Item
  | object b ms => object b (ms.eraseP fun m => m.1.text = key)
  | x => x

/-- A member, and the members before and after it. -/
theorem split_of_member {key : CString} {x it : Item} (h : x.member key = some it) :
    ∃ b before name after, x = object b (before ++ (name, it) :: after) ∧ name.text = key ∧
      ∀ m ∈ before, m.1.text ≠ key := by
  cases x with
  | object b ms =>
    obtain ⟨⟨name, it'⟩, hfind, rfl⟩ := Option.map_eq_some_iff.1 h
    obtain ⟨hname, before, after, rfl, hbefore⟩ := List.find?_eq_some_iff_append.1 hfind
    exact ⟨b, before, name, after, rfl, of_decide_eq_true hname,
      fun m hm => by simpa using hbefore m hm⟩
  | _ => cases h

end Item

namespace Item

/-- The first member of a name, replaced. -/
def replace (key : CString) (it : Item) : List (Str × Item) → List (Str × Item)
  | [] => []
  | m :: ms => if m.1.text = key then (m.1, it) :: ms else m :: replace key it ms

def setMember (x : Item) (key : CString) (it : Item) : Item :=
  match x with
  | object b ms => object b (replace key it ms)
  | x => x

@[simp] theorem block_setMember (x : Item) (key : CString) (it : Item) :
    (x.setMember key it).block = x.block := by
  cases x <;> rfl

theorem setMember_split {key : CString} {b : Nat} {before after : List (Str × Item)} {name : Str}
    (it it' : Item) (hname : name.text = key) (hbefore : ∀ m ∈ before, m.1.text ≠ key) :
    (object b (before ++ (name, it) :: after)).setMember key it' =
      object b (before ++ (name, it') :: after) := by
  refine congrArg (object b) ?_
  induction before with
  | nil => rw [List.nil_append, replace, if_pos hname, List.nil_append]
  | cons m before ih =>
    obtain ⟨hm, hbefore⟩ := List.forall_mem_cons.1 hbefore
    rw [List.cons_append, replace, if_neg hm, ih hbefore, List.cons_append]

theorem setMember_self {key : CString} {x it : Item} (h : x.member key = some it) :
    x.setMember key it = x := by
  obtain ⟨b, before, name, after, rfl, hname, hbefore⟩ := split_of_member h
  exact setMember_split it it hname hbefore

theorem itemStrs_append (items items' : List Item) :
    itemStrs (items ++ items') = itemStrs items ++ itemStrs items' := by
  induction items with
  | nil => rfl
  | cons item items ih => rw [List.cons_append, itemStrs, itemStrs, ih, List.append_assoc]

theorem memberStrs_append (ms ms' : List (Str × Item)) :
    memberStrs (ms ++ ms') = memberStrs ms ++ memberStrs ms' := by
  induction ms with
  | nil => rfl
  | cons m ms ih => rw [List.cons_append, memberStrs, memberStrs, ih]; simp

theorem links_append (items items' : List Item) :
    links (items ++ items') = links items ++ links items' := by
  induction items with
  | nil => rfl
  | cons item items ih => exact congrArg (_ :: ·) ih

/-- A member replaced by one that keeps its strings. -/
theorem strs_entry (b : Nat) (before after : List (Str × Item)) (name : Str) {it it' : Item}
    (hstrs : it.strs ⊆ it'.strs) :
    (object b (before ++ (name, it) :: after)).strs ⊆
      (object b (before ++ (name, it') :: after)).strs ∧
    it'.strs ⊆ (object b (before ++ (name, it') :: after)).strs := by
  rw [strs, strs, memberStrs_append, memberStrs_append, memberStrs, memberStrs]
  constructor
  · refine List.append_subset.2 ⟨List.subset_append_left _ _,
      List.Subset.trans (List.cons_subset_cons _ ?_) (List.subset_append_right _ _)⟩
    exact List.append_subset.2 ⟨List.Subset.trans hstrs (List.subset_append_left _ _),
      List.subset_append_right _ _⟩
  · intro s hs
    simp [hs]

theorem strs_setMember {key : CString} {x it it' : Item} (h : x.member key = some it)
    (hstrs : it.strs ⊆ it'.strs) :
    x.strs ⊆ (x.setMember key it').strs ∧ it'.strs ⊆ (x.setMember key it').strs := by
  obtain ⟨b, before, name, after, rfl, hname, hbefore⟩ := split_of_member h
  rw [setMember_split it it' hname hbefore]
  exact strs_entry b before after name hstrs

/-- A child in its list: what is around it does not depend on it. -/
theorem cells_branch (name : Option Str) (b type : Nat) (before after : List Link) (c : Nat)
    (prev next : Option Nat) : ∃ q q' around, ∀ l : Link, l.block = c →
      (branch name b type (before ++ l :: after)).cells prev next = l.cells q q' + around := by
  refine ⟨(last before).or ((last after).or (some c)), first after,
    entry b { Node.zero with
      next := next, prev := prev, child := (first before).or (some c), type := type,
      string := name.map Str.block } + optional name +
      chain ((last after).or (some c)) (some c) before + chain (some c) none after, ?_⟩
  rintro l rfl
  have hlast : last (before ++ l :: after) = (last after).or (some l.block) := by
    rw [last_append, show l :: after = [l] ++ after from rfl, last_append, Option.or_assoc]
    rfl
  have hcells : (branch name b type (before ++ l :: after)).cells prev next =
      entry b { Node.zero with
        next := next, prev := prev, child := first (before ++ l :: after), type := type,
        string := name.map Str.block } + (chain (last (before ++ l :: after)) none
          (before ++ l :: after) + optional name) := rfl
  rw [hcells, hlast, first_append, first_cons, chain_append, chain, first_cons, Option.some_or,
    Option.or_none]
  abel

/-- A member in its object. -/
theorem cells_member {key : CString} {x it : Item} (h : x.member key = some it)
    (name : Option Str) (prev next : Option Nat) :
    ∃ added q q' around, ∀ it', it'.block = it.block →
      ((x.setMember key it').link name).cells prev next =
        (it'.link (some added)).cells q q' + around := by
  obtain ⟨b, before, added, after, rfl, hadded, hbefore⟩ := split_of_member h
  obtain ⟨q, q', around, haround⟩ := cells_branch name b cJSON_Object (memberLinks before)
    (memberLinks after) it.block prev next
  refine ⟨added, q, q', around, fun it' hit' => ?_⟩
  rw [setMember_split it it' hadded hbefore,
    ← haround (it'.link (some added)) ((link_block ..).trans hit'), link, memberLinks_append]
  rfl

end Item

section

variable {x it : Item} {name : Option Str}

end

/-! ### Coercion refines -/

/-- The text that a scalar is coerced to. -/
def Item.rendered (p : Platform) : Item → Option CString
  | .number _ d => some (renderNumber p d)
  | .bool _ b => some (if b then "true" else "false" : String).toList
  | _ => none

/-- The number that a coerced item keeps. -/
def Item.stale : Item → CDouble
  | .number _ d => d
  | _ => .finite 0

section

variable {p : Platform} {x it : Item} {name : Option Str}

/-- A pointer that was returned for a text: to a string of the items. -/
def PointsTo (x : Item) (q : Option Nat) (text : Option CString) : Prop :=
  (q = none ∧ text = none) ∨ ∃ str ∈ x.strs, q = some str.block ∧ text = some str.text

/-- What reading a member as text leaves, and the pointer that it gives. -/
def Read (x : Item) (name : Option Str) (prev next : Option Nat)
    (q : Option Nat) (r : Option CString × CJson) (m : Footprint Cell) : Prop :=
  ∃ x' : Item, x'.block = x.block ∧ x'.value = r.2 ∧ m = (x'.link name).cells prev next ∧
    x.strs ⊆ x'.strs ∧ PointsTo x' q r.1

end

end

end Items

end Audd
