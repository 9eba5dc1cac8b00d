import Audd.JsonGrammar
import Audd.Lib.Refusal

/-! The parser's memory: an item for every value, and a string for every name and every string.
Whatever is refused, the parser gives its tree or NULL.  Its fuel is never used up. -/

namespace Audd

namespace CJson

mutual

/-- What is allocated inside a value: its item belongs to what holds it. -/
def requests : CJson → Nat
  | string _ => 1
  | array items => requestsItems items
  | object members => requestsMembers members
  | _ => 0

def requestsItems : List CJson → Nat
  | [] => 0
  | item :: items => 1 + (requests item + requestsItems items)

def requestsMembers : List (CString × CJson) → Nat
  | [] => 0
  | (_, item) :: members => 1 + (1 + (requests item + requestsMembers members))

end

end CJson

section

variable {p : Platform} {fuel : Nat}

theorem tallied_parseString (s : CString) :
    (parseString s).Tallied fun _ n => n = 1 := by
  unfold parseString
  split
  · split
    · exact AllocM.tallied_pure (by simp)
    · exact (AllocM.tallied_copy (Q := fun _ n => n = 1) rfl).bind rfl fun _ _ hn =>
        AllocM.tallied_pure fun _ _ => hn
  · exact AllocM.tallied_pure (by simp)

/-- The readers need every request that they make, and make as many as their result holds. -/
structure TalliedReaders (p : Platform) (fuel : Nat) : Prop where
  value : ∀ depth s, (parseValue p fuel depth s).Tallied fun r n => n = r.1.requests
  items : ∀ depth s, (parseItems p fuel depth s).Tallied fun r n => n = CJson.requestsItems r.1
  members : ∀ depth s, (parseMembers p fuel depth s).Tallied fun r n =>
    n = CJson.requestsMembers r.1

theorem TalliedReaders.parseValue (h : TalliedReaders p fuel) (depth : Nat) (s : CString) :
    (parseValue p (fuel + 1) depth s).Tallied fun r n => n = r.1.requests := by
  cases s with
  | nil => exact AllocM.tallied_pure (by simp)
  | cons c s =>
    rw [Audd.parseValue]
    simp only
    split_ifs
    · exact AllocM.tallied_pure fun r hr => Option.some.inj hr ▸ rfl
    · exact AllocM.tallied_pure fun r hr => Option.some.inj hr ▸ rfl
    · exact AllocM.tallied_pure fun r hr => Option.some.inj hr ▸ rfl
    · exact (tallied_parseString _).map
    · refine AllocM.tallied_pure fun r hr => ?_
      obtain ⟨_, -, rfl⟩ := Option.map_eq_some_iff.1 hr
      rfl
    · exact AllocM.tallied_pure (by simp)
    · split
      · exact AllocM.tallied_pure (by simp)
      · exact AllocM.tallied_pure fun r hr => Option.some.inj hr ▸ rfl
      · exact (h.items _ _).map
    · exact AllocM.tallied_pure (by simp)
    · split
      · exact AllocM.tallied_pure (by simp)
      · exact AllocM.tallied_pure fun r hr => Option.some.inj hr ▸ rfl
      · exact (h.members _ _).map
    · exact AllocM.tallied_pure (by simp)

theorem TalliedReaders.parseItems (h : TalliedReaders p fuel) (depth : Nat) (s : CString) :
    (parseItems p (fuel + 1) depth s).Tallied fun r n => n = CJson.requestsItems r.1 := by
  rw [Audd.parseItems]
  refine (AllocM.tallied_copy (Q := fun _ n => n = 1) rfl).bind rfl ?_
  rintro _ _ rfl
  refine (h.value _ _).bind rfl ?_
  rintro ⟨item, rest⟩ _ rfl
  simp only
  split
  · refine AllocM.Tallied.map ((h.items _ _).mono ?_)
    rintro _ _ rfl
    rfl
  · exact AllocM.tallied_pure fun r hr => Option.some.inj hr ▸ rfl
  · exact AllocM.tallied_pure (by simp)

theorem TalliedReaders.parseMembers (h : TalliedReaders p fuel) (depth : Nat) (s : CString) :
    (parseMembers p (fuel + 1) depth s).Tallied fun r n => n = CJson.requestsMembers r.1 := by
  rw [Audd.parseMembers]
  refine (AllocM.tallied_copy (Q := fun _ n => n = 1) rfl).bind rfl ?_
  rintro _ _ rfl
  simp only
  split_ifs
  · exact AllocM.tallied_pure (by simp)
  · refine (tallied_parseString _).bind rfl ?_
    rintro ⟨name, rest⟩ _ rfl
    simp only
    split
    · refine (h.value _ _).bind rfl ?_
      rintro ⟨item, rest⟩ _ rfl
      simp only
      split
      · refine AllocM.Tallied.map ((h.members _ _).mono ?_)
        rintro _ _ rfl
        rfl
      · exact AllocM.tallied_pure fun r hr => Option.some.inj hr ▸ rfl
      · exact AllocM.tallied_pure (by simp)
    · exact AllocM.tallied_pure (by simp)

theorem talliedReaders (p : Platform) (fuel : Nat) : TalliedReaders p fuel := by
  induction fuel with
  | zero =>
    exact {
      value := fun _ _ => AllocM.tallied_pure (by simp)
      items := fun _ _ => AllocM.tallied_pure (by simp)
      members := fun _ _ => AllocM.tallied_pure (by simp) }
  | succ fuel ih => exact ⟨ih.parseValue, ih.parseItems, ih.parseMembers⟩

theorem tallied_parseWithLength (s : CString) :
    (parseWithLength p s).Tallied fun v n => n = 1 + v.requests := by
  unfold parseWithLength
  split_ifs
  · exact AllocM.tallied_pure (by simp)
  · refine (AllocM.tallied_copy (Q := fun _ n => n = 1) rfl).bind rfl ?_
    rintro _ _ rfl
    refine AllocM.Tallied.map (((talliedReaders p _).value _ _).mono ?_)
    rintro _ _ rfl
    rfl

/-- The parser asks for one item for every value of its tree and one string for every string and
every name.  It gives the tree when it gets all of them, and NULL otherwise. -/
theorem parseWithLength_run (p : Platform) (s : CString) (tape : Tape) :
    ((parseWithLength p s).run tape).1 = (parseWithLength p s).ok.bind fun v =>
      if ∀ i < 1 + v.requests, tape i = true then some v else none := by
  have htallied := tallied_parseWithLength (p := p) s
  cases hok : (parseWithLength p s).ok with
  | none =>
    have hrun := AllocM.Every.run htallied.strict tape
    rw [hok, or_self] at hrun
    exact hrun
  | some v =>
    obtain ⟨n, rfl, hrun⟩ := htallied.run_eq hok
    exact hrun tape

/-! ### Fuel -/

theorem bufferSkipWhitespace_length_le (s : CString) :
    (bufferSkipWhitespace s).length ≤ s.length := by
  obtain ⟨w, -, hs⟩ := bufferSkipWhitespace_split s
  have hlength := congrArg List.length hs
  rw [List.length_append] at hlength
  omega

/-- A value takes something of the text, whatever is refused. -/
theorem parseValue_shortens (p : Platform) (fuel depth : Nat) (s : CString) :
    (parseValue p fuel depth s).Every fun r => ∀ x, r = some x → x.2.length < s.length := by
  refine ((talliedReaders p fuel).value depth s).strict.mono fun r hr x hx => ?_
  subst hx
  rcases hr with hr | hr
  · cases hr
  · obtain ⟨t, rfl, htext⟩ := (takesTexts p fuel).value depth s x.1 x.2 hr.symm
    obtain ⟨c, t', rfl, -⟩ := value_head htext
    rw [List.cons_append, List.length_cons, List.length_append]
    omega

theorem parseString_shortens (s : CString) :
    (parseString s).Every fun r => ∀ x, r = some x → x.2.length ≤ s.length := by
  refine (tallied_parseString s).strict.mono fun r hr x hx => ?_
  subst hx
  rcases hr with hr | hr
  · cases hr
  · obtain ⟨content, k, hs, hk, -⟩ := @quoted_of_parseString s x.1 x.2 hr.symm
    rw [hs, List.length_append]
    omega

/-- The readers make the same of a text with any more fuel: it outlasts them. -/
structure OutlastsReaders (p : Platform) (fuel : Nat) : Prop where
  value : ∀ more depth s, 2 * s.length < fuel →
    parseValue p (fuel + more) depth s = parseValue p fuel depth s
  items : ∀ more depth s, 2 * s.length + 1 < fuel →
    parseItems p (fuel + more) depth s = parseItems p fuel depth s
  members : ∀ more depth s, 2 * s.length + 1 < fuel →
    parseMembers p (fuel + more) depth s = parseMembers p fuel depth s

theorem OutlastsReaders.parseValue (h : OutlastsReaders p fuel) (more depth : Nat) (s : CString)
    (hs : 2 * s.length < fuel + 1) :
    Audd.parseValue p (fuel + 1 + more) depth s = Audd.parseValue p (fuel + 1) depth s := by
  rw [Nat.add_right_comm]
  cases s with
  | nil => rfl
  | cons c s =>
    rw [List.length_cons] at hs
    have hskip := bufferSkipWhitespace_length_le s
    have hitems := h.items more (depth + 1) (bufferSkipWhitespace s) (by omega)
    have hmembers := h.members more (depth + 1) (bufferSkipWhitespace s) (by omega)
    simp only [Audd.parseValue, hitems, hmembers]

theorem OutlastsReaders.parseItems (h : OutlastsReaders p fuel) (more depth : Nat) (s : CString)
    (hs : 2 * s.length + 1 < fuel + 1) :
    Audd.parseItems p (fuel + 1 + more) depth s = Audd.parseItems p (fuel + 1) depth s := by
  rw [Nat.add_right_comm, Audd.parseItems, Audd.parseItems]
  have hskip := bufferSkipWhitespace_length_le s
  refine congrArg (AllocM.copy () >>= ·) (funext fun granted => ?_)
  cases granted with
  | none => rfl
  | some _ =>
    dsimp only
    rw [h.value more depth (bufferSkipWhitespace s) (by omega)]
    refine AllocM.bind_congr_every ((parseValue_shortens p fuel depth _).mono fun r hr => ?_)
    cases r with
    | none => rfl
    | some r =>
      obtain ⟨item, rest⟩ := r
      have hrest := hr _ rfl
      have hskip' := bufferSkipWhitespace_length_le rest
      dsimp only
      cases hnext : bufferSkipWhitespace rest with
      | nil => rfl
      | cons c rest' =>
        rw [hnext, List.length_cons] at hskip'
        by_cases hc : c = ','
        · subst hc
          dsimp only at hrest
          simp only [h.items more depth rest' (by omega)]
        · by_cases hc' : c = ']'
          · subst hc'
            rfl
          · simp only [List.cons.injEq, hc, hc', false_and, imp_self, implies_true]

theorem OutlastsReaders.parseMembers (h : OutlastsReaders p fuel) (more depth : Nat) (s : CString)
    (hs : 2 * s.length + 1 < fuel + 1) :
    Audd.parseMembers p (fuel + 1 + more) depth s = Audd.parseMembers p (fuel + 1) depth s := by
  rw [Nat.add_right_comm, Audd.parseMembers, Audd.parseMembers]
  have hskip := bufferSkipWhitespace_length_le s
  refine congrArg (AllocM.copy () >>= ·) (funext fun granted => ?_)
  cases granted with
  | none => rfl
  | some _ =>
    dsimp only
    split_ifs
    · rfl
    refine AllocM.bind_congr_every ((parseString_shortens _).mono fun r hr => ?_)
    cases r with
    | none => rfl
    | some r =>
      obtain ⟨name, rest⟩ := r
      have hrest := hr _ rfl
      have hskip' := bufferSkipWhitespace_length_le rest
      dsimp only
      cases hcolon : bufferSkipWhitespace rest with
      | nil => rfl
      | cons c rest' =>
        by_cases hc : c = ':'
        · subst hc
          rw [hcolon, List.length_cons] at hskip'
          have hskip₂ := bufferSkipWhitespace_length_le rest'
          dsimp only at hrest
          simp only [h.value more depth (bufferSkipWhitespace rest') (by omega)]
          refine AllocM.bind_congr_every ((parseValue_shortens p fuel depth _).mono fun r hr => ?_)
          cases r with
          | none => rfl
          | some r =>
            obtain ⟨item, rest₂⟩ := r
            have hrest₂ := hr _ rfl
            have hskip₃ := bufferSkipWhitespace_length_le rest₂
            dsimp only at hrest₂ ⊢
            cases hnext : bufferSkipWhitespace rest₂ with
            | nil => rfl
            | cons d rest₃ =>
              rw [hnext, List.length_cons] at hskip₃
              by_cases hd : d = ','
              · subst hd
                simp only [h.members more depth rest₃ (by omega)]
              · by_cases hd' : d = '}'
                · subst hd'
                  rfl
                · simp only [List.cons.injEq, hd, hd', false_and, imp_self, implies_true]
        · simp only [List.cons.injEq, hc, false_and, imp_self, implies_true]

theorem outlastsReaders (p : Platform) (fuel : Nat) : OutlastsReaders p fuel := by
  induction fuel with
  | zero =>
    exact {
      value := fun _ _ _ hs => absurd hs (Nat.not_lt_zero _)
      items := fun _ _ _ hs => absurd hs (Nat.not_lt_zero _)
      members := fun _ _ _ hs => absurd hs (Nat.not_lt_zero _) }
  | succ fuel ih => exact ⟨ih.parseValue, ih.parseItems, ih.parseMembers⟩

/-- The parser does not run out of fuel: with any more it makes the same requests of memory, and the
same tree. -/
theorem parseWithLength_fuel (p : Platform) (s : CString) (more : Nat) :
    parseValue p (2 * s.length + 2 + more) 0 (bufferSkipWhitespace (skipUtf8Bom s)) =
      parseValue p (2 * s.length + 2) 0 (bufferSkipWhitespace (skipUtf8Bom s)) := by
  have hskip := bufferSkipWhitespace_length_le (skipUtf8Bom s)
  have hbom := skipUtf8Bom_length_le s
  exact (outlastsReaders p _).value more 0 _ (by omega)

end

end Audd
