import ContextConfig.Proofs.Yaml.Graph
import ContextConfig.Proofs.Yaml.Steps
import ContextConfig.Proofs.Yaml.Hand
import ContextConfig.Yaml.Reader
/-!
# Quotes and room that make no difference

How a scalar is written matters only where its text is judged: a text that is just a text has the
same tag in quotes and without them. How much room there is matters only where it is used up. So
tokens that are judged alike describe the same nodes, by the steps of the readers of nodes, and with
more room they describe the same unless they were nested too deeply. In particular it makes no
difference whether a number is put in quotes.
-/

namespace ContextConfig.Yaml

/-- A builder with more room whose scalar tokens count as plain only where that matters. -/
def Builder.eased (more : Nat) (b : Builder) : Builder :=
  { b with room := b.room + more, tokens := b.tokens.map Token.judged }

namespace Build

variable {more : Nat}

/-- A reader that tells a builder from its eased one only where more room is needed, and what is known
of what it reads. -/
def Blind {α : Type} (more : Nat) (p : α → Prop) (x : Build α) : Prop := ∀ b,
  (∃ a b', p a ∧ x b = .ok (a, b') ∧ x (b.eased more) = .ok (a, b'.eased more)) ∨
    ∃ stop, x b = .error stop ∧
      (x (b.eased more) = .error stop ∨ stop = .fault .tooNested ∧ 0 < more)

variable {α β : Type} {p : α → Prop} {q : β → Prop}

theorem blind_pure {a : α} (h : p a) : Blind more p (pure a) := fun b => .inl ⟨a, b, h, rfl, rfl⟩

theorem blind_malformed : Blind more p malformed := fun _ => .inr ⟨_, rfl, .inl rfl⟩

theorem Blind.bind {x : Build α} {f : α → Build β} (hx : Blind more p x)
    (hf : ∀ a, p a → Blind more q (f a)) : Blind more q (x >>= f) := by
  intro b
  obtain ⟨a, b', ha, h, heased⟩ | ⟨stop, h, heased⟩ := hx b
  · rw [bind_eq h, bind_eq heased]
    exact hf a ha b'
  · exact .inr ⟨stop, bind_error h, heased.imp_left bind_error⟩

theorem blind_peek {f : Token → Build α}
    (hjudged : ∀ text plain, f (Token.scalar text plain).judged = f (.scalar text plain))
    (hf : ∀ t, Blind more p (f t)) : Blind more p (peek >>= f) := by
  have heq (t : Token) : f t.judged = f t := by
    cases t with
    | scalar text plain => exact hjudged text plain
    | _ => rfl
  intro b
  cases htokens : b.tokens with
  | nil =>
    have hempty : (b.eased more).tokens = [] := congrArg (List.map Token.judged) htokens
    exact .inr ⟨b.ending, bind_error (peek_nil htokens), .inl (bind_error (peek_nil hempty))⟩
  | cons t rest =>
    have htoken : (b.eased more).tokens = t.judged :: rest.map Token.judged :=
      congrArg (List.map Token.judged) htokens
    rw [bind_eq (peek_eq htokens), bind_eq (peek_eq htoken), heq]
    exact hf t b

theorem blind_skip : Blind more Any skip := by
  intro b
  refine .inl ⟨(), { b with tokens := b.tokens.drop 1 }, trivial, rfl, ?_⟩
  simp only [Builder.eased, List.map_drop]
  rfl

/-- With more room a level more can be entered. -/
theorem blind_enter : Blind more Any enter := by
  intro b
  by_cases hroom : callsPerLevel ≤ b.room
  · have hmore : callsPerLevel ≤ (b.eased more).room := Nat.le_add_right_of_le hroom
    refine .inl ⟨(), _, trivial, enter_eq hroom, (enter_eq hmore).trans ?_⟩
    simp only [Builder.eased, Nat.sub_add_comm hroom]
  · have hfull := Nat.lt_of_not_le hroom
    refine .inr ⟨.fault .tooNested, enter_error hfull, ?_⟩
    cases more with
    | zero => exact .inl (enter_error (b := b.eased 0) hfull)
    | succ more => exact .inr ⟨rfl, Nat.zero_lt_succ more⟩

theorem blind_leave : Blind more Any leave := by
  intro b
  refine .inl ⟨(), _, trivial, leave_apply b, (leave_apply _).trans ?_⟩
  simp only [Builder.eased, Nat.add_right_comm]

theorem name_some (text : List Char) (id : NodeId) (b : Builder) : name (some text) id b
    = if b.anchors.any (·.1 = text) then .error .malformed
      else .ok ((), { b with anchors := (text, id) :: b.anchors }) := by
  rw [name, bind_eq (get_apply b)]
  split <;> rfl

theorem aliased_apply (text : List Char) (b : Builder) : aliased text b
    = match b.anchors.find? (·.1 = text) with
      | some (_, id) => .ok (id, b)
      | none => .error .malformed := by
  rw [aliased, bind_eq (get_apply b)]
  cases b.anchors.find? (·.1 = text) <;> rfl

theorem completeTag_some (handle suffix : List Char) (b : Builder) :
    completeTag (some ⟨some handle, suffix⟩) b
      = match b.handles.find? (·.1 = handle) with
        | some (_, start) => .ok (some (start ++ suffix), b)
        | none => .error .malformed := by
  rw [completeTag, bind_eq (get_apply b)]
  cases b.handles.find? (·.1 = handle) <;> rfl

theorem blind_name (anchor : Option (List Char)) (id : NodeId) : Blind more Any (name anchor id) := by
  cases anchor with
  | none => exact blind_pure trivial
  | some text =>
    intro b
    have hanchors : (b.eased more).anchors = b.anchors := rfl
    rw [name_some, name_some, hanchors]
    split
    · exact .inr ⟨_, rfl, .inl rfl⟩
    · exact .inl ⟨_, _, trivial, rfl, rfl⟩

theorem blind_aliased (text : List Char) : Blind more Any (aliased text) := by
  intro b
  have hanchors : (b.eased more).anchors = b.anchors := rfl
  rw [aliased_apply, aliased_apply, hanchors]
  cases b.anchors.find? (·.1 = text) with
  | none => exact .inr ⟨_, rfl, .inl rfl⟩
  | some found => exact .inl ⟨_, _, trivial, rfl, rfl⟩

theorem blind_completeTag (tagName : Option TagName) {p : Option (List Char) → Prop} (hp : ∀ tag, p tag) :
    Blind more p (completeTag tagName) := by
  match tagName with
  | none => exact blind_pure (hp _)
  | some ⟨none, suffix⟩ => exact blind_pure (hp _)
  | some ⟨some handle, suffix⟩ =>
    intro b
    have hhandles : (b.eased more).handles = b.handles := rfl
    rw [completeTag_some, completeTag_some, hhandles]
    cases b.handles.find? (·.1 = handle) with
    | none => exact .inr ⟨_, rfl, .inl rfl⟩
    | some found => exact .inl ⟨_, _, hp _, rfl, rfl⟩

theorem Steps.blind {x : Build α} (h : Steps Any Any p x) (more : Nat) : Blind more p x := by
  induction h with
  | pure h => exact blind_pure h
  | malformed => exact blind_malformed
  | bind _ _ ihx ihf => exact ihx.bind ihf
  | peek hjudged _ ihf => exact blind_peek hjudged fun t => ihf t trivial
  | skip => exact blind_skip
  | add => exact fun _ => .inl ⟨_, _, trivial, rfl, rfl⟩
  | assign => exact fun _ => .inl ⟨_, _, trivial, rfl, rfl⟩
  | name anchor id => exact blind_name anchor id
  | aliased name => exact blind_aliased name
  | completeTag => exact blind_completeTag _ fun _ uri _ => ⟨⟨none, uri⟩, trivial, .complete⟩
  | declare => exact fun _ => .inl ⟨_, _, trivial, rfl, rfl⟩
  | enter => exact blind_enter
  | leave => exact blind_leave

theorem makes_any {safe : Token → Prop} : Makes safe Any :=
  ⟨fun _ => trivial, fun _ _ => trivial, fun _ _ => trivial, fun _ _ => trivial⟩

end Build

/-- How scalars are written matters to a graph only where it is judged, and room only where there is
too little. -/
theorem Graph.ofTokens_eased (room more : Nat) (tokens : List Token) (ending : Option Stop) :
    Graph.ofTokens (room + more) (tokens.map Token.judged) ending = Graph.ofTokens room tokens ending ∨
      Graph.ofTokens room tokens ending = .error (.fault .tooNested) ∧ 0 < more := by
  have hbuild := (Build.steps_document Build.makes_any (2 * tokens.length + 4)).blind more
    { room, tokens, ending := ending.getD .malformed }
  simp only [Builder.eased] at hbuild
  simp only [Graph.ofTokens, List.length_map, StateT.run]
  obtain ⟨root, b, -, h, heased⟩ | ⟨stop, h, heased | ⟨rfl, hmore⟩⟩ := hbuild
  · rw [h, heased]
    exact .inl rfl
  · rw [h, heased]
    exact .inl rfl
  · rw [h]
    exact .inr ⟨rfl, hmore⟩

theorem Graph.ofTokens_judged (room : Nat) (tokens : List Token) (ending : Option Stop) :
    Graph.ofTokens room (tokens.map Token.judged) ending = Graph.ofTokens room tokens ending :=
  (Graph.ofTokens_eased room 0 tokens ending).resolve_right fun h => Nat.lt_irrefl 0 h.2

/-- With more room a row of tokens describes the same, unless it was nested too deeply. -/
theorem Graph.ofTokens_more {room : Nat} {tokens : List Token} {ending : Option Stop}
    (h : Graph.ofTokens room tokens ending ≠ .error (.fault .tooNested)) (more : Nat) :
    Graph.ofTokens (room + more) tokens ending = Graph.ofTokens room tokens ending :=
  (Graph.ofTokens_judged _ _ _).symm.trans
    ((Graph.ofTokens_eased room more tokens ending).resolve_right fun hnested => h hnested.1)

/-- A token in which a number is put in quotes. -/
def Token.quoted : Token → Token
  | scalar text plain => scalar text (plain && !isNumber text)
  | t => t

theorem judged_quoted (t : Token) : t.quoted.judged = t.judged := by
  cases t with
  | scalar text plain =>
    cases hnumber : isNumber text with
    | false => simp [Token.quoted, Token.judged, hnumber]
    | true =>
      have htext : implicitTag textualRules text = .str :=
        (implicitTag_textualRules text).trans (if_pos hnumber)
      simp [Token.quoted, Token.judged, hnumber, htext]
  | _ => rfl

/-- What a hand leaves bare could as well be in quotes. -/
theorem judged_token (hand : Hand) (t : Token) : (hand.token t).judged = t.judged := by
  cases t with
  | scalar text plain =>
    cases hleaves : hand.leaves text with
    | false => simp [Hand.token, Token.judged, hleaves]
    | true => simp [Hand.token, Token.judged, hleaves, hand.textual hleaves]
  | _ => rfl

theorem Graph.ofTokens_map {f : Token → Token} (hf : ∀ t, (f t).judged = t.judged)
    (room : Nat) (tokens : List Token) (ending : Option Stop) :
    Graph.ofTokens room (tokens.map f) ending = Graph.ofTokens room tokens ending := by
  have hjudged : (tokens.map f).map Token.judged = tokens.map Token.judged := by
    rw [List.map_map]
    exact List.map_congr_left fun t _ => hf t
  rw [← ofTokens_judged, hjudged, ofTokens_judged]

/-- A text is read as if all numbers in it were in quotes. -/
theorem readWithin_quoted (room : Nat) (text : List Char) : readWithin room text
    = readTokens room ((Token.ofText text).1.map Token.quoted) (Token.ofText text).2 := by
  rw [readTokens, Graph.ofTokens_map judged_quoted]
  rfl

end ContextConfig.Yaml
