import VerseSearch.Service.Basic
import VerseSearch.Web.QueryString

/-!
# Web requests

Three requests are answered: the health of the service, a page of search results, and the pattern
that a typed text is searched with. A query string that does not fit is a bad request; a fault is an
unavailable service if a corpus is not installed, else an internal error.
-/

set_option autoImplicit false

namespace VerseSearch.Web

/-- The answer to a request. -/
inductive Reply (α : Type) where
  | ok (body : α)
  | badRequest
  | failed (fault : Fault)
deriving DecidableEq, Repr

/-- The status of a fault. -/
def faultStatus : Fault → Nat
  | .notReady _ => 503
  | _ => 500

namespace Reply

/-- The status of the answer. -/
def status {α : Type} : Reply α → Nat
  | .ok _ => 200
  | .badRequest => 400
  | .failed fault => faultStatus fault

/-- The answer to a request that gives a value or a fault. -/
def ofExcept {α : Type} : Except Fault α → Reply α
  | .ok a => .ok a
  | .error fault => .failed fault

end Reply

/-! ## Health -/

/-- The health of a service. -/
structure Health where
  /-- All corpora are installed. -/
  complete : Bool
  corpora : List (Layer × Option Nat)
  /-- The queries whose results are kept. -/
  cachedQueries : Nat
deriving DecidableEq, Repr

/-- The state of a service in one word. -/
def Health.word (h : Health) : String := if h.complete then "ok" else "loading"

/-- The health of a service. -/
def health (s : Service) : Health :=
  let corpora := s.library.status
  ⟨corpora.all fun c => c.2.isSome, corpora, s.recent.size⟩

/-! ## Search -/

/-- The typed text of a request. It has to be given once. -/
def typedText? (pairs : List (List Char × List Char)) : Option String :=
  match values "q" pairs with
  | [q] => some (String.ofList q)
  | _ => none

/-- The requested page, 1 if none is. It must not be given twice and has to be a count. -/
def requestedPage? (pairs : List (List Char × List Char)) : Option Nat :=
  match values "page" pairs with
  | [] => some 1
  | [page] => Text.count? page
  | _ => none

/-- A page of search results. -/
def search (s : Service) (queryString : Option String) : Reply Page × Service :=
  let given := pairs (queryString.getD "").toList
  match typedText? given, requestedPage? given with
  | some raw, some page =>
    let found := s.search raw page
    (.ofExcept found.1, found.2)
  | _, _ => (.badRequest, s)

/-! ## Pattern -/

/-- How a typed text is understood. -/
structure Explanation where
  layer : Option Layer
  /-- The text after validation; for a reference its two parts with a colon between them. -/
  query : String
  /-- The text of the regular expression, if the text is searched for by one. -/
  pattern : Option String
deriving DecidableEq, Repr

/-- How a query is searched for. -/
def explain (wildcard : String) : Query → Except Fault Explanation
  | .invalid => .ok ⟨none, "", none⟩
  | .reference surah verse => .ok ⟨some .letters, surah ++ ":" ++ verse.getD "", none⟩
  | .content layer keyword =>
    match Pattern.compile wildcard layer keyword with
    | .error fault => .error (.pattern fault)
    | .ok p => .ok ⟨some layer, keyword, some p.source⟩

/-- The pattern that a typed text is searched with. -/
def pattern (s : Service) (queryString : Option String) : Reply Explanation :=
  match typedText? (pairs (queryString.getD "").toList) with
  | some raw => .ofExcept (explain s.settings.wildcard (Query.ofInput raw))
  | none => .badRequest

end VerseSearch.Web
