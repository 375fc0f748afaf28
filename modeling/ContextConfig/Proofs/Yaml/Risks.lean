import ContextConfig.Proofs.Yaml.Nesting
import ContextConfig.Proofs.Yaml.Visiting
/-!
# Texts that do not fault

A text can ask for a value that does not exist by a number that is too large, by a plain scalar or by
a tag, and it can be nested too deeply. Any other text is malformed or has a document.
-/

namespace ContextConfig.Yaml

/-- A text that may ask for a value that does not exist, or for more calls than there is room for. A
scalar or a tag asks for nothing unless all tokens of the text can be read. -/
inductive Risky (text : List Char) : Prop where
  | excessive (h : Excessive text)
  | time {tokens : List Token} {content : List Char} (h : Token.ofText text = (tokens, none))
    (hcontent : .scalar content true ∈ tokens) (himpossible : IsImpossible content)
  | tag {tokens : List Token} {uri : List Char} (h : Token.ofText text = (tokens, none))
    (huri : Build.Tagged (· ∈ tokens) uri) (huncertain : IsUncertainUri uri)
  | nested (h : readWithin safeCalls text = .error (.fault .tooNested))

theorem certain_of_not_risky {text : List Char} (hrisky : ¬ Risky text) {tokens : List Token}
    (h : Token.ofText text = (tokens, none)) : Certain tokens where
  inner := by
    have hsettles := Token.settles_ofText fun hexcessive => hrisky (.excessive hexcessive)
    rw [h] at hsettles
    exact hsettles.inner
  times _ hcontent himpossible := hrisky (.time h hcontent himpossible)
  tags _ huri huncertain := hrisky (.tag h huri huncertain)

/-- The tokens of a text that is not risky describe safe nodes, whatever room there is. -/
theorem regular_graph {text : List Char} (hrisky : ¬ Risky text) (room : Nat) {tokens : List Token}
    {ending : Option Stop} (h : Token.ofText text = (tokens, ending)) :
    Regular (fun graph => ∀ node ∈ graph.nodes, node.IsSafe) (Graph.ofTokens room tokens ending) := by
  have hsettles := Token.settles_ofText fun hexcessive => hrisky (.excessive hexcessive)
  rw [h] at hsettles
  cases ending with
  | none =>
    have hcertain := certain_of_not_risky hrisky h
    have hgraph := Graph.regular_ofTokens hcertain.makes (fun _ ht => ht) hsettles.ending room
    exact hgraph.mono fun _ hnodes => hnodes.2
  | some stop =>
    -- The end of the text is not among its tokens, so that no graph is complete.
    have hends : ∀ t ∈ tokens, t ≠ .streamEnd := fun t ht heq => hsettles.ended nofun (heq ▸ ht)
    have hmakes : Build.Makes (· ≠ .streamEnd) Build.Any := Build.makes_any
    have hgraph := Graph.regular_ofTokens hmakes hends hsettles.ending room
    exact hgraph.mono fun _ hnodes => absurd rfl hnodes.1

theorem regular_readWithin {text : List Char} (hrisky : ¬ Risky text) (room : Nat) :
    Regular Document.Shows (readWithin room text) := by
  have hempty : (Document.mapping []).Shows := .mapping nofun nofun
  obtain ⟨⟨tokens, ending⟩, htext⟩ : ∃ r, Token.ofText text = r := ⟨_, rfl⟩
  rw [readWithin, htext]
  refine (regular_graph hrisky room htext).bind fun graph hnodes => ?_
  split
  · exact .ok hempty
  · rename_i root _
    refine (Graph.regular_visited hnodes room root).bind fun nodes hnodes => ?_
    have hdocument := Graph.shows_document hnodes documentDepth root
    split
    · exact .ok hempty
    · exact .ok hdocument

/-- The document of a text that is not risky, or what is wrong with the text: its form. -/
inductive Sure : Except Stop Document → Prop where
  | document {document : Document} (h : document.Shows) : Sure (.ok document)
  | malformed : Sure (.error .malformed)

/-- A text that is not risky is malformed or has a document, all names of which can be shown. -/
theorem sure_readText {text : List Char} (hrisky : ¬ Risky text) : Sure (readText text) := by
  rw [readText, maxCalls_eq, readWithin_more fun h => hrisky (.nested h)]
  have hread := regular_readWithin hrisky safeCalls
  generalize hresult : readWithin safeCalls text = result at hread
  cases hread with
  | ok h => exact .document h
  | malformed => exact .malformed
  | tooNested => exact absurd (.nested hresult) hrisky

theorem malformed_decodeBytes {payload : List UInt8} {stop : Stop}
    (h : decodeBytes payload = .error stop) : stop = .malformed := by
  unfold decodeBytes at h
  split at h
  · cases h
    rfl
  · split at h
    · cases h
    · cases h
      rfl

theorem sure_ofBytes {payload : List UInt8}
    (hrisky : ∀ text, decodeBytes payload = .ok text → ¬ Risky text) : Sure (ofBytes payload) := by
  rw [ofBytes]
  cases hbytes : decodeBytes payload with
  | ok text =>
    simp only [bind, Except.bind]
    exact sure_readText (hrisky text hbytes)
  | error stop =>
    obtain rfl := malformed_decodeBytes hbytes
    exact .malformed

end ContextConfig.Yaml
