import ContextConfig.Host
import Mathlib.Data.List.Basic
import Mathlib.Data.List.Infix
/-!
# Normal forms of hosts

A host is in normal form when its scheme and its port are given and no slash is at its end.
Normalising brings every host there and leaves one that is there alone: what was filled in is what
the next reading finds.

Where the scheme ends and the port begins is said by `Address.Parts`, without the reader: the scheme
ends at the first `://`, and the port begins at the last colon.
-/

namespace ContextConfig

namespace Address

variable {text scheme rest name port : List Char}

theorem splitScheme_cons_of_not {c : Char}
    (hc : ∀ rest, c = ':' → text = '/' :: '/' :: rest → False) :
    splitScheme (c :: text) = (splitScheme text).map fun (scheme, name) => (c :: scheme, name) := by
  rw [splitScheme]
  exact hc

theorem separator_not_prefix_cons {c : Char}
    (hc : ∀ rest, c = ':' → text = '/' :: '/' :: rest → False) : ¬ "://".toList <+: c :: text := by
  rintro ⟨rest, hrest⟩
  cases hrest
  exact hc rest rfl rfl

/-- A character in front of the first `://` does not start one. -/
theorem not_startsWith_separator {c : Char} (h : ¬ "://".toList <:+: c :: scheme)
    (after : List Char) (hcolon : c = ':')
    (htext : scheme ++ "://".toList ++ rest = '/' :: '/' :: after) : False := by
  match scheme with
  | [] => cases htext
  | [_] => cases htext
  | _ :: _ :: scheme =>
    cases htext
    exact h ⟨[], scheme, by rw [hcolon]; rfl⟩

theorem splitScheme_append (h : ¬ "://".toList <:+: scheme) (rest : List Char) :
    splitScheme (scheme ++ "://".toList ++ rest) = some (scheme, rest) := by
  induction scheme with
  | nil => rfl
  | cons c scheme ih =>
    rw [List.cons_append, List.cons_append, splitScheme_cons_of_not (not_startsWith_separator h),
      ih fun hpart => h (List.infix_cons hpart)]
    rfl

theorem splitScheme_eq_none_iff : splitScheme text = none ↔ ¬ "://".toList <:+: text := by
  induction text using splitScheme.induct with
  | case1 => simp [splitScheme]
  | case2 rest => simpa [splitScheme] using ⟨[], rest, rfl⟩
  | case3 c text hc ih =>
    rw [splitScheme_cons_of_not hc, Option.map_eq_none_iff, ih, List.infix_cons_iff, not_or]
    exact (and_iff_right (separator_not_prefix_cons hc)).symm

/-- A text is split at its first `://`. -/
theorem splitScheme_eq_some_iff : splitScheme text = some (scheme, rest) ↔
    text = scheme ++ "://".toList ++ rest ∧ ¬ "://".toList <:+: scheme := by
  constructor
  · intro h
    induction text using splitScheme.induct generalizing scheme with
    | case1 => cases h
    | case2 =>
      cases h
      exact ⟨rfl, by decide⟩
    | case3 c text hc ih =>
      rw [splitScheme_cons_of_not hc] at h
      obtain ⟨⟨before, after⟩, hsplit, hparts⟩ := Option.map_eq_some_iff.mp h
      cases hparts
      obtain ⟨htext, hbefore⟩ := ih hsplit
      refine ⟨congrArg (c :: ·) htext, ?_⟩
      rw [List.infix_cons_iff, not_or]
      -- A separator at the very start of the scheme would be one at the start of the text.
      refine ⟨fun hstart => separator_not_prefix_cons hc ?_, hbefore⟩
      rw [htext, List.append_assoc]
      exact hstart.trans (List.prefix_append (c :: before) _)
  · rintro ⟨rfl, h⟩
    exact splitScheme_append h rest

theorem splitPort_eq_none {text : List Char} : splitPort text = none ↔ ':' ∉ text := by
  induction text with
  | nil => simp [splitPort]
  | cons c text ih =>
    rw [splitPort, List.mem_cons, not_or, ← ih]
    cases splitPort text with
    | some parts => simp
    | none => simp [eq_comm]

/-- A text is split at its last colon. -/
theorem splitPort_eq_some_iff :
    splitPort text = some (name, port) ↔ text = name ++ ':' :: port ∧ ':' ∉ port := by
  constructor
  · intro h
    induction text generalizing name with
    | nil => cases h
    | cons c text ih =>
      rw [splitPort] at h
      cases hsplit : splitPort text with
      | some parts =>
        obtain ⟨before, after⟩ := parts
        rw [hsplit] at h
        cases h
        obtain ⟨htext, hport⟩ := ih hsplit
        exact ⟨congrArg (c :: ·) htext, hport⟩
      | none =>
        rw [hsplit] at h
        dsimp only at h
        split at h
        · rename_i hcolon
          cases h
          exact ⟨congrArg (· :: port) hcolon, splitPort_eq_none.mp hsplit⟩
        · cases h
  · rintro ⟨rfl, h⟩
    induction name with
    | nil => rw [List.nil_append, splitPort, splitPort_eq_none.mpr h, if_pos rfl]
    | cons c name ih => rw [List.cons_append, splitPort, ih]

/-- What stands before the first `://` of a text, between it and the last colon, and behind that. -/
structure Parts (text scheme name port : List Char) : Prop where
  eq : text = scheme ++ "://".toList ++ (name ++ ':' :: port)
  first : ¬ "://".toList <:+: scheme
  last : ':' ∉ port

theorem Parts.splitScheme (h : Parts text scheme name port) :
    splitScheme text = some (scheme, name ++ ':' :: port) :=
  splitScheme_eq_some_iff.mpr ⟨h.eq, h.first⟩

theorem Parts.splitPort (h : Parts text scheme name port) :
    splitPort (name ++ ':' :: port) = some (name, port) :=
  splitPort_eq_some_iff.mpr ⟨rfl, h.last⟩

theorem Parts.of_split (hscheme : Address.splitScheme text = some (scheme, rest))
    (hport : Address.splitPort rest = some (name, port)) : Parts text scheme name port := by
  obtain ⟨rfl, hfirst⟩ := splitScheme_eq_some_iff.mp hscheme
  obtain ⟨rfl, hlast⟩ := splitPort_eq_some_iff.mp hport
  exact ⟨rfl, hfirst, hlast⟩

/-- There is one first `://` and one last colon. -/
theorem Parts.unique {scheme' name' port' : List Char} (h : Parts text scheme name port)
    (h' : Parts text scheme' name' port') : scheme = scheme' ∧ name = name' ∧ port = port' := by
  have hscheme := h.splitScheme.symm.trans h'.splitScheme
  simp only [Option.some.injEq, Prod.mk.injEq] at hscheme
  have hport := h.splitPort.symm.trans (hscheme.2 ▸ h'.splitPort)
  simp only [Option.some.injEq, Prod.mk.injEq] at hport
  exact ⟨hscheme.1, hport.1, hport.2⟩

theorem Parts.ofText (h : Parts text scheme name port) :
    ofText text = ⟨some scheme, name, some port⟩ := by
  rw [Address.ofText, h.splitScheme]
  dsimp only
  rw [h.splitPort]

theorem not_mem_defaultPort (scheme : Option (List Char)) :
    ':' ∉ defaultPort scheme ∧ '/' ∉ defaultPort scheme := by
  rw [defaultPort]
  split <;> decide

theorem not_infix_defaultScheme (port : Option (List Char)) :
    ¬ "://".toList <:+: defaultScheme port := by
  rw [defaultScheme]
  split <;> decide

/-- Reading a text completes it with a scheme and a port around its name. The port is the end of the
text unless it is a default one. -/
theorem exists_parts_complete (text : List Char) :
    ∃ scheme port, Parts (ofText text).complete scheme (ofText text).name port ∧
      (port <:+ text ∨ '/' ∉ port) := by
  rw [ofText]
  cases hscheme : Address.splitScheme text with
  | some parts =>
    obtain ⟨scheme, rest⟩ := parts
    obtain ⟨htext, hfirst⟩ := splitScheme_eq_some_iff.mp hscheme
    dsimp only
    cases hport : Address.splitPort rest with
    | some parts =>
      obtain ⟨name, port⟩ := parts
      obtain ⟨rfl, hlast⟩ := splitPort_eq_some_iff.mp hport
      refine ⟨scheme, port, ⟨List.append_assoc .., hfirst, hlast⟩, .inl ?_⟩
      rw [htext]
      exact ⟨scheme ++ "://".toList ++ (name ++ [':']), by simp⟩
    | none =>
      obtain ⟨hcolon, hslash⟩ := not_mem_defaultPort (some scheme)
      exact ⟨scheme, _, ⟨List.append_assoc .., hfirst, hcolon⟩, .inr hslash⟩
  | none =>
    dsimp only
    split
    · rename_i c name port hport
      obtain ⟨htext, hlast⟩ := splitPort_eq_some_iff.mp hport
      refine ⟨_, port, ⟨List.append_assoc .., not_infix_defaultScheme (some port), hlast⟩, .inl ?_⟩
      exact ⟨c :: name ++ [':'], by rw [htext, List.append_assoc]; rfl⟩
    · obtain ⟨hcolon, hslash⟩ := not_mem_defaultPort none
      exact ⟨_, _, ⟨List.append_assoc .., not_infix_defaultScheme none, hcolon⟩, .inr hslash⟩

end Address

namespace Host

variable {host : List Char}

/-- Nothing, or a text whose last colon stands behind its first `://` and that has no slash at its
end. -/
def IsNormal (host : List Char) : Prop :=
  host = [] ∨ (∃ scheme name port, Address.Parts host scheme name port) ∧ host.getLast? ≠ some '/'

theorem getLast?_dropSlashes (host : List Char) : (dropSlashes host).getLast? ≠ some '/' := by
  rw [dropSlashes, Text.dropEndWhile, List.getLast?_reverse]
  intro h
  have hnot := List.head?_dropWhile_not (fun c => decide (c = '/')) host.reverse
  rw [h] at hnot
  cases hnot

theorem dropSlashes_of_getLast? (h : host.getLast? ≠ some '/') : dropSlashes host = host := by
  obtain rfl | ⟨front, last, rfl⟩ := host.eq_nil_or_concat
  · rfl
  · rw [List.concat_eq_append, List.getLast?_concat] at h
    have hlast : last ≠ '/' := fun heq => h (congrArg some heq)
    simp [dropSlashes, Text.dropEndWhile, hlast]

theorem dropSlashes_append_replicate (h : host.getLast? ≠ some '/') (count : Nat) :
    dropSlashes (host ++ List.replicate count '/') = host := by
  have hslashes : ∀ c ∈ List.replicate count '/', decide (c = '/') = true := fun c hc =>
    decide_eq_true (List.eq_of_mem_replicate hc)
  rw [dropSlashes, Text.dropEndWhile, List.reverse_append, List.reverse_replicate,
    List.dropWhile_append_of_pos hslashes]
  exact dropSlashes_of_getLast? h

/-- Completing a host without slashes at its end puts none there. -/
theorem isNormal_complete {host : List Char} (h : host.getLast? ≠ some '/') :
    IsNormal (Address.ofText host).complete := by
  obtain ⟨scheme, port, hparts, hport⟩ := Address.exists_parts_complete host
  refine .inr ⟨⟨scheme, _, port, hparts⟩, ?_⟩
  have hend : port.getLast? ≠ some '/' := by
    obtain ⟨front, rfl⟩ | hslash := hport
    · intro hlast
      rw [List.getLast?_append, hlast] at h
      exact h rfl
    · exact fun hlast => hslash (List.mem_of_getLast? hlast)
  rw [hparts.eq, List.getLast?_append, List.getLast?_append, List.getLast?_cons]
  cases hlast : port.getLast? with
  | none => simp
  | some c =>
    rw [hlast] at hend
    simpa using hend

theorem isNormal_normalizeChars (host : List Char) : IsNormal (normalizeChars host) := by
  rw [normalizeChars]
  split
  · exact .inl rfl
  · exact isNormal_complete (getLast?_dropSlashes host)

/-- A host in normal form stays as it is. -/
theorem normalizeChars_of_isNormal (h : IsNormal host) : normalizeChars host = host := by
  obtain rfl | ⟨⟨scheme, name, port, hparts⟩, hslash⟩ := h
  · rfl
  rw [normalizeChars, dropSlashes_of_getLast? hslash, if_neg (by simp [hparts.eq]), hparts.ofText]
  exact (List.append_assoc ..).trans hparts.eq.symm

theorem normalizeChars_eq_self_iff : normalizeChars host = host ↔ IsNormal host :=
  ⟨fun h => h ▸ isNormal_normalizeChars host, normalizeChars_of_isNormal⟩

theorem normalizeChars_eq_nil : normalizeChars host = [] ↔ host = [] := by
  rw [normalizeChars]
  split
  case isTrue h => simp [h]
  case isFalse h => simp [h, Address.complete]

theorem toList_normalize (host : String) :
    (normalize host).toList = normalizeChars host.toList := String.toList_ofList

theorem normalize_normalize (host : String) : normalize (normalize host) = normalize host := by
  rw [normalize, toList_normalize, normalizeChars_of_isNormal (isNormal_normalizeChars _),
    normalize]

theorem normalize_eq_empty {host : String} : normalize host = "" ↔ host = "" := by
  rw [normalize, String.ofList_eq_empty_iff, normalizeChars_eq_nil, String.toList_eq_nil_iff]

/-- Normalising projects the texts onto the hosts in normal form: every result is one, exactly they
are kept, and nothing else becomes the empty host. -/
theorem normalize_isProjection (host : String) :
    IsNormal (normalize host).toList ∧ (normalize host = host ↔ IsNormal host.toList) ∧
      normalize (normalize host) = normalize host ∧ (normalize host = "" ↔ host = "") := by
  refine ⟨?_, ?_, normalize_normalize host, normalize_eq_empty⟩
  · rw [toList_normalize]
    exact isNormal_normalizeChars host.toList
  · rw [← String.toList_inj, toList_normalize]
    exact normalizeChars_eq_self_iff

end Host
end ContextConfig
