import ContextConfig.Proofs.Normalization
import Mathlib.Data.List.TakeWhile
/-!
# Addresses in hosts

What is given of an address is found in the normal form of the host: a scheme, a name and a port
stay what they are, and what is missing is filled in. A name cannot be filled in. A host that gives
none has none in its normal form either, but a scheme and a port all the same. That form is not
empty, and so a client with nothing else for a host counts as valid.
-/

namespace ContextConfig

namespace Address

variable {scheme name port : List Char}

theorem not_infix_of_not_mem {text : List Char} {c : Char} (hc : c ∈ "://".toList) (h : c ∉ text) :
    ¬ "://".toList <:+: text :=
  fun hpart => h (hpart.subset hc)

theorem ofText_of_scheme (hscheme : ':' ∉ scheme) (hname : ':' ∉ name) :
    ofText (scheme ++ "://".toList ++ name) = ⟨some scheme, name, none⟩ := by
  have hfirst := not_infix_of_not_mem (by decide) hscheme
  rw [ofText, splitScheme_append hfirst]
  dsimp only
  rw [splitPort_eq_none.mpr hname]

theorem ofText_of_port (hname : name ≠ []) (hslash : '/' ∉ name ++ ':' :: port)
    (hport : ':' ∉ port) :
    ofText (name ++ ':' :: port) = ⟨none, name, some port⟩ := by
  have hnone := splitScheme_eq_none_iff.mpr (not_infix_of_not_mem (by decide) hslash)
  rw [ofText, hnone]
  dsimp only
  rw [splitPort_eq_some_iff.mpr ⟨rfl, hport⟩]
  cases name with
  | nil => exact absurd rfl hname
  | cons c name => rfl

theorem ofText_of_name (hname : ':' ∉ name) : ofText name = ⟨none, name, none⟩ := by
  have hnone := splitScheme_eq_none_iff.mpr (not_infix_of_not_mem (by decide) hname)
  rw [ofText, hnone]
  dsimp only
  rw [splitPort_eq_none.mpr hname]

theorem defaultPort_toList (scheme : String) :
    defaultPort (some scheme.toList) = (if scheme = "https" then "443" else "80").toList := by
  simp only [defaultPort, https, Option.some.injEq, String.toList_inj]
  split <;> rfl

theorem defaultScheme_toList (port : String) :
    defaultScheme (some port.toList) = (if port = "443" then "https" else "http").toList := by
  simp only [defaultScheme, Option.some.injEq, String.toList_inj]
  split <;> rfl

end Address

namespace Host

section Given

/-- A part of an address as it may be given, without a separator in it. -/
structure IsPart (part : String) : Prop where
  colon : ':' ∉ part.toList
  slash : '/' ∉ part.toList

def slashes (count : Nat) : String := String.ofList (List.replicate count '/')

variable {scheme name port : String}

/-- Slashes behind a host that ends in some part of an address are as good as none. -/
theorem normalize_append_slashes (h : IsPart name) (hne : name ≠ "") (lead : String) (count : Nat) :
    normalize (lead ++ name ++ slashes count)
      = String.ofList (Address.ofText (lead.toList ++ name.toList)).complete := by
  have hname : name.toList ≠ [] := mt String.toList_eq_nil_iff.mp hne
  have hlast : (lead.toList ++ name.toList).getLast? ≠ some '/' := by
    intro hlast
    rw [List.getLast?_append_of_ne_nil _ hname] at hlast
    exact h.slash (List.mem_of_getLast? hlast)
  rw [normalize, slashes, String.toList_append, String.toList_append, String.toList_ofList,
    normalizeChars, if_neg (by simp [hname]), dropSlashes_append_replicate hlast]

theorem normalize_schemeNamePort (hscheme : IsPart scheme) (hport : IsPart port) (hne : port ≠ "")
    (count : Nat) :
    normalize (scheme ++ "://" ++ name ++ ":" ++ port ++ slashes count)
      = scheme ++ "://" ++ name ++ ":" ++ port := by
  have hparts : Address.Parts ((scheme ++ "://" ++ name ++ ":").toList ++ port.toList)
      scheme.toList name.toList port.toList :=
    ⟨by simp, Address.not_infix_of_not_mem (by decide) hscheme.colon, hport.colon⟩
  rw [normalize_append_slashes hport hne, hparts.ofText]
  apply String.toList_inj.mp
  simp [Address.complete]

theorem normalize_schemeName (hscheme : IsPart scheme) (hname : IsPart name) (hne : name ≠ "")
    (count : Nat) :
    normalize (scheme ++ "://" ++ name ++ slashes count)
      = scheme ++ "://" ++ name ++ ":" ++ (if scheme = "https" then "443" else "80") := by
  have htext := Address.ofText_of_scheme hscheme.colon hname.colon
  rw [normalize_append_slashes hname hne, String.toList_append, htext]
  apply String.toList_inj.mp
  simp [Address.complete, Address.defaultPort_toList]

theorem normalize_namePort (hname : IsPart name) (hport : IsPart port) (hnamed : name ≠ "")
    (hported : port ≠ "") (count : Nat) :
    normalize (name ++ ":" ++ port ++ slashes count)
      = (if port = "443" then "https" else "http") ++ "://" ++ name ++ ":" ++ port := by
  have htext := Address.ofText_of_port (mt String.toList_eq_nil_iff.mp hnamed)
    (by simp [hname.slash, hport.slash]) hport.colon
  have hlead : (name ++ ":").toList ++ port.toList = name.toList ++ ':' :: port.toList := by simp
  rw [normalize_append_slashes hport hported, hlead, htext]
  apply String.toList_inj.mp
  simp [Address.complete, Address.defaultScheme_toList]

theorem normalize_name (hname : IsPart name) (hne : name ≠ "") (count : Nat) :
    normalize (name ++ slashes count) = "http://" ++ name ++ ":80" := by
  have hnormalize := normalize_append_slashes hname hne "" count
  rw [String.empty_append] at hnormalize
  rw [hnormalize, String.toList_empty, List.nil_append, Address.ofText_of_name hname.colon]
  apply String.toList_inj.mp
  simp [Address.complete, Address.defaultScheme, Address.defaultPort, Address.http]

/-- What is given of an address is kept, however many slashes follow it, and the rest is filled in:
a port that goes with the scheme, a scheme that goes with the port. -/
theorem normalize_keepsParts {scheme name port : String} (hscheme : IsPart scheme)
    (hname : IsPart name) (hport : IsPart port) (hnamed : name ≠ "") (hported : port ≠ "")
    (count : Nat) :
    normalize (scheme ++ "://" ++ name ++ ":" ++ port ++ slashes count)
        = scheme ++ "://" ++ name ++ ":" ++ port ∧
      normalize (scheme ++ "://" ++ name ++ slashes count)
        = scheme ++ "://" ++ name ++ ":" ++ (if scheme = "https" then "443" else "80") ∧
      normalize (name ++ ":" ++ port ++ slashes count)
        = (if port = "443" then "https" else "http") ++ "://" ++ name ++ ":" ++ port ∧
      normalize (name ++ slashes count) = "http://" ++ name ++ ":80" :=
  ⟨normalize_schemeNamePort hscheme hport hported count,
    normalize_schemeName hscheme hname hnamed count,
    normalize_namePort hname hport hnamed hported count, normalize_name hname hnamed count⟩

theorem normalize_keepsParts_https :
    (IsPart "https" ∧ IsPart "lenses" ∧ IsPart "443" ∧ "lenses" ≠ "" ∧ "443" ≠ "") ∧
      normalize ("https" ++ "://" ++ "lenses" ++ ":" ++ "443" ++ slashes 2)
        = "https" ++ "://" ++ "lenses" ++ ":" ++ "443" ∧
      normalize ("https" ++ "://" ++ "lenses" ++ slashes 2) = "https://lenses:443" ∧
      normalize ("lenses" ++ ":" ++ "443" ++ slashes 2) = "https://lenses:443" ∧
      normalize ("lenses" ++ slashes 2) = "http://lenses:80" := by
  have hscheme : IsPart "https" := ⟨by decide, by decide⟩
  have hname : IsPart "lenses" := ⟨by decide, by decide⟩
  have hport : IsPart "443" := ⟨by decide, by decide⟩
  exact ⟨⟨hscheme, hname, hport, by decide, by decide⟩,
    normalize_keepsParts hscheme hname hport (by decide) (by decide) 2⟩

end Given

section Named

/-- The name is the address itself: what stands between the first `://` of a normal form and its
last colon. -/
def HasName (host : String) : Prop :=
  ∃ scheme name port, Address.Parts (normalize host).toList scheme name port ∧ name ≠ []

/-- A host without a name: slashes only, or, but for slashes at the end, a scheme and a port with
nothing in between. -/
def IsNameless (host : String) : Prop :=
  (∀ c ∈ host.toList, c = '/') ∨
    ∃ scheme port, Address.Parts (dropSlashes host.toList) scheme [] port

theorem dropSlashes_eq_nil_iff {host : List Char} :
    dropSlashes host = [] ↔ ∀ c ∈ host, c = '/' := by
  simp [dropSlashes, Text.dropEndWhile]

/-- The name in the normal form is the one that is read, be it empty or not. -/
theorem hasName_iff {host : String} (hne : host ≠ "") :
    HasName host ↔ (Address.ofText (dropSlashes host.toList)).name ≠ [] := by
  have hnormal : (normalize host).toList = (Address.ofText (dropSlashes host.toList)).complete := by
    rw [toList_normalize, normalizeChars, if_neg (mt String.toList_eq_nil_iff.mp hne)]
  obtain ⟨scheme, port, hparts, -⟩ := Address.exists_parts_complete (dropSlashes host.toList)
  rw [← hnormal] at hparts
  constructor
  · rintro ⟨_, name, _, hother, hname⟩
    rwa [(hparts.unique hother).2.1]
  · exact fun hname => ⟨scheme, _, port, hparts, hname⟩

/-- No name is read where there is no text, or nothing between a scheme and a port. -/
theorem name_ofText_eq_nil_iff {text : List Char} (h : text.getLast? ≠ some '/') :
    (Address.ofText text).name = [] ↔
      text = [] ∨ ∃ scheme port, Address.Parts text scheme [] port := by
  constructor
  · intro hname
    rw [Address.ofText] at hname
    cases hscheme : Address.splitScheme text with
    | some parts =>
      obtain ⟨scheme, rest⟩ := parts
      rw [hscheme] at hname
      dsimp only at hname
      cases hport : Address.splitPort rest with
      | some parts =>
        obtain ⟨name, port⟩ := parts
        rw [hport] at hname
        obtain rfl : name = [] := hname
        exact .inr ⟨scheme, port, .of_split hscheme hport⟩
      | none =>
        -- A text that ends with its `://` would end in a slash.
        rw [hport] at hname
        obtain rfl : rest = [] := hname
        have htext := (Address.splitScheme_eq_some_iff.mp hscheme).1
        exact absurd (by simp [htext]) h
    | none =>
      rw [hscheme] at hname
      dsimp only at hname
      split at hname
      · cases hname
      · exact .inl hname
  · rintro (rfl | ⟨scheme, port, hparts⟩)
    · rfl
    · rw [hparts.ofText]

/-- The normal form has a name exactly if the host has one. -/
theorem hasName_iff_not_isNameless {host : String} (hne : host ≠ "") :
    HasName host ↔ ¬ IsNameless host := by
  rw [hasName_iff hne, IsNameless, ← dropSlashes_eq_nil_iff,
    ← name_ofText_eq_nil_iff (getLast?_dropSlashes host.toList)]

end Named

end Host

namespace Client

/-- The host of a valid client has a name in its normal form unless it is nothing but slashes, or a
scheme and a port with nothing in between. These are not noticed: with credentials, every host that
is not empty makes a client valid. -/
theorem hasName_of_isValid (client : Client) :
    (client.isValid = true ↔
      client.host ≠ "" ∧ (client.token ≠ "" ∨ client.authentication.isSome)) ∧
    (client.isValid = true → (Host.HasName client.host ↔ ¬ Host.IsNameless client.host)) := by
  refine ⟨isValid_iff, fun hvalid => ?_⟩
  exact Host.hasName_iff_not_isNameless (isValid_iff.mp hvalid).1

theorem not_hasName_slash :
    ¬ ∀ client : Client, client.isValid = true → Host.HasName client.host := by
  intro hall
  have hvalid : ({ host := "/", token := "t" } : Client).isValid = true := by decide +kernel
  have hnameless : Host.IsNameless "/" := .inl (by simp)
  exact (Host.hasName_iff_not_isNameless (by decide)).mp (hall _ hvalid) hnameless

end Client
end ContextConfig
