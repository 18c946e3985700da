import ChessArbiter.Proofs.GameText

/-!
# Brackets of tags

A bracket makes a tag if its first two tokens are a symbol and a string, and whatever else stands in
it is passed over. Reading goes on behind it, so that a bracket takes nothing from the rest of the
text as long as some token stands in it. In an empty one the closing bracket is taken for the name
of a tag, and what follows is swallowed up to the next closing bracket, or to the end of the text
(`PgnGame.bracket_keeps_to_itself`).
-/

namespace ChessArbiter

def Scanning.isClosed : Scanning → Bool
  | .between => true
  | .symbol _ => true
  | _ => false

namespace Token

variable {st : Scanning} {c d : Char} {cs body : List Char}

/-- A closing bracket ends a symbol and is read apart from what stands before it. -/
theorem scan_append_bracket (h : (stateAfter .between body).isClosed = true) (rest : List Char) :
    scan (body ++ ']' :: rest) = scan body ++ .mark ']' :: scan rest := by
  have hbody := scanFrom_append .between body []
  rw [List.append_nil] at hbody
  rw [scan, scan, scanFrom_append, hbody, List.append_assoc]
  cases hst : stateAfter .between body with
  | between => rfl
  | symbol read => rfl
  | comment | lineComment | variation outer | quoted read escaped =>
    rw [hst] at h
    cases h

theorem mark_mem_first (h : .mark d ∈ (first c).1) : c = d := by
  unfold first at h
  split_ifs at h <;> first
    | exact absurd h List.not_mem_nil
    | exact (Token.mark.inj (List.mem_singleton.1 h)).symm

theorem mark_mem_next (h : .mark d ∈ (next st c).1) : c = d ∧ st.isClosed = true := by
  cases st with
  | between => exact ⟨mark_mem_first h, rfl⟩
  | comment => cases h
  | lineComment => cases h
  | variation outer =>
    by_cases hopen : c = '('
    · subst hopen
      cases h
    by_cases hclose : c = ')'
    · subst hclose
      cases outer <;> cases h
    · rw [next_variation outer hopen hclose] at h
      cases h
  | quoted read escaped =>
    cases escaped with
    | true => cases h
    | false =>
      rw [next] at h
      split_ifs at h
      · cases h
      · cases List.mem_singleton.1 h
      · cases h
  | symbol read =>
    rw [next] at h
    split_ifs at h
    · cases h
    · rcases List.mem_cons.1 h with hsymbol | hfirst
      · cases hsymbol
      · exact ⟨mark_mem_first hfirst, rfl⟩

theorem exists_first_bracket (h : .mark ']' ∈ scanFrom st cs) :
    ∃ lost later, cs = lost ++ ']' :: later ∧ (stateAfter st lost).isClosed = true ∧
      .mark ']' ∉ scanFrom st lost := by
  have hlast : ∀ st, Token.mark ']' ∉ last st := by
    intro st h
    cases st with
    | quoted read escaped => cases List.mem_singleton.1 h
    | symbol read => cases List.mem_singleton.1 h
    | _ => cases h
  induction cs generalizing st with
  | nil => exact absurd h (hlast st)
  | cons c cs ih =>
    by_cases hc : .mark ']' ∈ (next st c).1
    · obtain ⟨rfl, hclosed⟩ := mark_mem_next hc
      exact ⟨[], cs, rfl, hclosed, hlast st⟩
    · obtain ⟨lost, later, rfl, hclosed, hno⟩ := ih ((List.mem_append.1 h).resolve_left hc)
      refine ⟨c :: lost, later, rfl, hclosed, ?_⟩
      rw [scanFrom, List.mem_append, not_or]
      exact ⟨hc, hno⟩

end Token

namespace PgnGame

variable {ts us : List Token}

/-- The tag that the tokens in a bracket make, if the first two are a symbol and a string. -/
def bracketTag : List Token → Option (String × String)
  | .symbol name :: .quoted value :: _ => some (String.ofList name, String.ofList value)
  | _ => none

/-! ### Items of a bracket -/

theorem read_value (name t : Token) (ts : List Token) (h : t ≠ .mark ']') :
    Place.read (.tagValue name) t =
      ((bracketTag (name :: t :: ts)).map fun e => .tag e.1 e.2, .tagRest) := by
  have hafter : Place.after t = .tagRest := if_neg h
  cases name with
  | symbol s =>
    cases t with
    | quoted v => rfl
    | symbol _ | mark _ => exact congrArg (Prod.mk none) hafter
  | quoted _ | mark _ => exact congrArg (Prod.mk none) hafter

theorem itemsFrom_bracket (hne : ts ≠ []) (h : .mark ']' ∉ ts) (us : List Token) :
    itemsFrom .movetext (.mark '[' :: (ts ++ .mark ']' :: us)) =
      ((bracketTag ts).map fun e => .tag e.1 e.2).toList ++ itemsFrom .movetext us := by
  match ts, hne with
  | [name], _ => cases name <;> rfl
  | name :: value :: ts, _ =>
    rw [List.mem_cons, List.mem_cons, not_or, not_or] at h
    obtain ⟨-, hvalue, hts⟩ := h
    change itemsFrom (.tagValue name) (value :: (ts ++ .mark ']' :: us)) = _
    rw [itemsFrom_cons, read_value name value ts (Ne.symm hvalue), itemsFrom_tagRest hts]
    rfl

theorem itemsFrom_empty_bracket (us : List Token) :
    itemsFrom .movetext (.mark '[' :: .mark ']' :: us) = itemsFrom .tagRest us := by
  cases us with
  | nil => rfl
  | cons t us => exact (itemsFrom_cons _ t us).trans (itemsFrom_cons .tagRest t us).symm

/-! ### Tags of a bracket -/

/-- What comes later gives a tag its value, unless it is not set there. -/
theorem lookup_foldl_addItem (items : List Item) (g : PgnGame) (key : String) :
    (items.foldl addItem g).tags.lookup key =
      ((items.foldl addItem {}).tags.lookup key).or (g.tags.lookup key) := by
  induction items using List.reverseRecOn with
  | nil => rfl
  | append_singleton items item ih =>
    rw [List.foldl_append, List.foldl_append]
    cases item with
    | tag name value =>
      change (setTag _ name value).tags.lookup key = ((setTag _ name value).tags.lookup key).or _
      rw [lookup_setTag, lookup_setTag, ih]
      split_ifs
      · rfl
      · rfl
    | move text => exact ih

theorem lookup_bracketTag (ts : List Token) (items : List Item) (key : String) :
    ((((bracketTag ts).map fun e => Item.tag e.1 e.2).toList ++ items).foldl addItem {}).tags.lookup
        key =
      ((items.foldl addItem {}).tags.lookup key).or
        (((bracketTag ts).map fun e => (Text.lower e.1, e.2)).toList.lookup key) := by
  rw [List.foldl_append, lookup_foldl_addItem]
  cases bracketTag ts <;> rfl

/-- A bracket in which some token stands takes nothing from the rest of the text and adds at most
one tag, which the rest may set anew. An empty bracket takes all that follows up to the next closing
one, or all of the rest if there is none. -/
theorem bracket_keeps_to_itself (body rest : List Char)
    (hclosed : (Token.stateAfter .between body).isClosed = true)
    (hbody : .mark ']' ∉ Token.scan body) :
    let whole := parse (String.ofList ('[' :: (body ++ ']' :: rest)))
    let after := parse (String.ofList rest)
    (Token.scan body ≠ [] → whole.moves = after.moves ∧
      ∀ key, whole.tags.lookup key = (after.tags.lookup key).or
        (((bracketTag (Token.scan body)).map fun e => (Text.lower e.1, e.2)).toList.lookup key)) ∧
    (Token.scan body = [] → .mark ']' ∉ Token.scan rest → whole.moves = [] ∧ whole.tags = []) ∧
    (Token.scan body = [] → .mark ']' ∈ Token.scan rest →
      ∃ lost later, rest = lost ++ ']' :: later ∧
        (Token.stateAfter .between lost).isClosed = true ∧ .mark ']' ∉ Token.scan lost ∧
        whole.moves = (parse (String.ofList later)).moves ∧
        whole.tags = (parse (String.ofList later)).tags) := by
  intro whole after
  have hscan : Token.scan ('[' :: (body ++ ']' :: rest)) =
      .mark '[' :: (Token.scan body ++ .mark ']' :: Token.scan rest) :=
    congrArg _ (Token.scan_append_bracket hclosed rest)
  have hmoves : whole.moves = _ := moves_parse _
  have htags : whole.tags = _ := tags_parse _
  rw [hscan] at hmoves htags
  refine ⟨fun hne => ?_, fun hempty hno => ?_, fun hempty hmem => ?_⟩
  · rw [hmoves, htags, itemsFrom_bracket hne hbody]
    constructor
    · rw [List.filterMap_append, moves_parse]
      cases bracketTag (Token.scan body) <;> rfl
    · intro key
      rw [lookup_bracketTag, tags_parse]
  -- a body without tokens leaves its own closing bracket to be taken for the name of the tag
  · have hswallowed := itemsFrom_tagRest hno []
    rw [List.append_nil] at hswallowed
    rw [hmoves, htags, hempty, List.nil_append, itemsFrom_empty_bracket, hswallowed]
    exact ⟨rfl, rfl⟩
  · obtain ⟨lost, later, hrest, hlost, hno⟩ := Token.exists_first_bracket hmem
    have hswallowed : itemsFrom .tagRest (Token.scan rest) =
        itemsFrom .movetext (Token.scan later) := by
      rw [hrest, Token.scan_append_bracket hlost]
      exact itemsFrom_tagRest hno _
    refine ⟨lost, later, hrest, hlost, hno, ?_, ?_⟩
    · rw [hmoves, hempty, List.nil_append, itemsFrom_empty_bracket, hswallowed, moves_parse]
    · rw [htags, hempty, List.nil_append, itemsFrom_empty_bracket, hswallowed, tags_parse]

/-- Closing brackets in the value of a tag and in a comment, and a token too many. -/
def crowded : List Char := "Round \"1]\" ;]\n 2".toList

def onward : List Char := " 1. e4 [Event \"a\"] e5".toList

theorem crowded_keeps_to_itself :
    (parse (String.ofList ('[' :: (crowded ++ ']' :: onward)))).moves = ["e4", "e5"] ∧
      (parse (String.ofList ('[' :: (crowded ++ ']' :: onward)))).tags.lookup "round" = some "1]" ∧
      (parse (String.ofList ('[' :: ([] ++ ']' :: ['e', '4'])))).moves = [] ∧
      ∃ lost later, onward = lost ++ ']' :: later ∧
        (parse (String.ofList ('[' :: ([] ++ ']' :: onward)))).moves =
          (parse (String.ofList later)).moves := by
  have hclosed : (Token.stateAfter .between crowded).isClosed = true := by decide +kernel
  have hbody : .mark ']' ∉ Token.scan crowded := by decide +kernel
  obtain ⟨hkept, -⟩ := bracket_keeps_to_itself crowded onward hclosed hbody
  obtain ⟨hmoves, htags⟩ := hkept (by decide +kernel)
  obtain ⟨-, hlost, -⟩ := bracket_keeps_to_itself [] ['e', '4'] rfl (by decide)
  obtain ⟨-, -, hswallowed⟩ := bracket_keeps_to_itself [] onward rfl (by decide)
  obtain ⟨lost, later, honward, -, -, hlater, -⟩ := hswallowed rfl (by decide +kernel)
  refine ⟨hmoves.trans (by decide +kernel), (htags "round").trans (by decide +kernel), ?_, ?_⟩
  · exact (hlost rfl (by decide +kernel)).1
  · exact ⟨lost, later, honward, hlater⟩

/-- An empty bracket takes the moves behind it. -/
theorem empty_bracket_swallows :
    (Token.stateAfter .between []).isClosed = true ∧ Token.mark ']' ∉ Token.scan [] ∧
      (parse (String.ofList "\n\n1. e4 e5 *\n".toList)).moves = ["e4", "e5"] ∧
      (parse (String.ofList ('[' :: ([] ++ ']' :: "\n\n1. e4 e5 *\n".toList)))).moves = [] := by
  decide +kernel

end PgnGame

end ChessArbiter
