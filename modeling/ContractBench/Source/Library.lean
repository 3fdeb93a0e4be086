import ContractBench.Response
import ContractBench.Source.Path

/-! # The dependency library

The library of shared sources that contracts import: the name all its paths begin with, and the
address where its files are kept.
-/

namespace ContractBench.Source

/-- What asking for a path comes to: the text of a file, or a failure. -/
abbrev Supply := RawText → Except Failure String

/-- A library of sources. -/
structure Library where
  /-- What the paths of the library begin with. -/
  scope : String
  /-- The address of its root, without a slash at the end. -/
  site : String
deriving DecidableEq, Repr

namespace Library

/-- The scope of the library that is used unless another is named. -/
def defaultScope : String := "@openzeppelin/contracts/"

/-- The address of the library that is used unless another is named. -/
def defaultSite : String :=
  "https://raw.githubusercontent.com/OpenZeppelin/openzeppelin-contracts/v5.0.0/contracts"

/-- A text without slashes at its end. -/
def withoutSlashes (s : String) : String :=
  String.ofList (s.toList.reverse.dropWhile (· == '/')).reverse

/-- The library with a scope and an address; the empty text stands for the default. -/
def named (scope site : String) : Library where
  scope := if scope = "" then defaultScope else scope
  site := withoutSlashes (if site = "" then defaultSite else site)

/-- The library that is used unless another is named. -/
def standard : Library := named "" ""

/-- The path under which the library has what a file imports, or none if the import leads
outside the library. Relative imports always lead into it. -/
def canonical? (library : Library) (current specifier : RawText) : Option RawText :=
  if RawText.beginsWith library.scope specifier then
    some specifier
  else if isRelative specifier then
    let path := resolve current specifier
    some (if RawText.beginsWith library.scope path then path else library.scope ++ path)
  else
    none

/-- What is asked of the library lies in it. -/
theorem beginsWith_scope_of_canonical? {library : Library} {current specifier path : RawText}
    (h : library.canonical? current specifier = some path) :
    RawText.beginsWith library.scope path = true := by
  unfold canonical? at h
  split at h
  next hscope => exact Option.some.inj h ▸ hscope
  next =>
    split at h
    next =>
      obtain rfl := Option.some.inj h
      split
      next hscope => exact hscope
      next => exact RawText.beginsWith_append _ _
    next => cases h

/-- No path of the library reads as a relative one. -/
def Absolute (library : Library) : Prop :=
  ∀ path, RawText.beginsWith library.scope path = true → isRelative path = false

/-- A library has absolute paths unless its scope begins with a dot. -/
theorem absolute_named {scope : String} (site : String)
    (hdot : Text.beginsWith "." scope = false) : (named scope site).Absolute := by
  intro path hpath
  obtain ⟨hnamed, hne⟩ : Text.beginsWith "." (named scope site).scope = false ∧
      (named scope site).scope.toList ≠ [] := by
    simp only [named]
    split
    next => decide
    next hne => exact ⟨hdot, fun hnil => hne (String.toList_eq_nil_iff.mp hnil)⟩
  obtain ⟨rest, rfl⟩ := RawText.beginsWith_iff.mp hpath
  obtain ⟨c, cs, hchars⟩ := List.exists_cons_of_ne_nil hne
  have hc : '.' ≠ c := by
    rintro rfl
    simp [Text.beginsWith, hchars] at hnamed
  have hpoint : CodePoint.ofChar '.' ≠ CodePoint.ofChar c := fun h => hc (CodePoint.ofChar_inj.mp h)
  simp [isRelative, RawText.beginsWith, hchars, List.isPrefixOf, hpoint]

/-- The address of a path. -/
def url (library : Library) (path : RawText) : RawText :=
  library.site ++ "/" ++ (RawText.after? library.scope path).getD path

/-- The text of a file, read from its address. -/
def fetch (library : Library) (web : Web) : Supply := fun path =>
  match web.reply (library.url path) with
  | .error (.outage kind message) =>
      if kind.isTransport then .error (.fetching path message) else .error (.outage kind message)
  | .error failure => .error failure
  | .ok response =>
      if response.isError then
        .error (.fetching path
          ("HTTP " ++ Numeral.print response.status ++ " em " ++ library.url path))
      else
        .ok response.body

/-- The paths that the pages of the web can answer. A path of the library and the same path
without its scope have one address. -/
def answered (library : Library) (web : Web) : List RawText :=
  web.pages.flatMap fun page =>
    match RawText.after? (library.site ++ "/") page.1 with
    | some rest => [rest, library.scope ++ rest]
    | none => []

theorem mem_answered_of_mem_pages {library : Library} {web : Web} {path : RawText}
    {page : RawText × Reply} (hpage : page ∈ web.pages) (hurl : page.1 = library.url path) :
    path ∈ library.answered web := by
  refine List.mem_flatMap.mpr ⟨page, hpage, ?_⟩
  rw [hurl, url, ← RawText.ofString_append, RawText.after?_append]
  cases hrest : RawText.after? library.scope path with
  | none => simp
  | some rest => simp [RawText.eq_append_of_after? hrest]

/-- A text comes from a page. -/
theorem mem_answered_of_fetch_ok {library : Library} {web : Web} {path : RawText} {content : String}
    (h : library.fetch web path = .ok content) : path ∈ library.answered web := by
  cases hfind : web.pages.find? fun page => page.1 == library.url path with
  | none =>
      have hreply : web.reply (library.url path) = Web.missing := by
        simp [Web.reply, Ordered.get?, hfind]
      simp [fetch, hreply, Web.missing, Response.isError] at h
  | some page =>
      have hurl := List.find?_some hfind
      exact mem_answered_of_mem_pages (List.mem_of_find?_eq_some hfind) (by simpa using hurl)

end Library

end ContractBench.Source
