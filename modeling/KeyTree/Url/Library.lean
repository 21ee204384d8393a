import KeyTree.Url.Basic
import KeyTree.Url.Query

/-!
# Libraries of addresses

Triggers need little of an address: its parameters, and the address with other ones. They take this
from a library, and the library of this project is one of those that will do.
-/

namespace KeyTree

/-- What triggers take from a library of addresses. -/
structure UrlLibrary where
  Address : Type
  parse : String → Except UrlFault Address
  text : Address → String
  /-- The parameters of an address as they were before they were encoded. -/
  params : Address → Url.Params
  /-- The address with these parameters and no others. -/
  withParams : Address → Url.Params → Except UrlFault Address
  withoutParam : Address → String → Except UrlFault Address
  /-- The address with new parameters, each in place of those of its name. -/
  withMerged : Address → List (String × String) → Except UrlFault Address

namespace Url

/-- The parameters of an address's query. -/
def queryParams (url : Url) : Params := .ofQuery (url.query.getD [])

/-- The address with other parameters. Without parameters it has no query. -/
def withParams (url : Url) (params : Params) : Except UrlFault Url :=
  url.withQuery (if params.isEmpty then none else some params.toQuery)

/-- The addresses of this project as a library. -/
def library : UrlLibrary where
  Address := Url
  parse := parse
  text := text
  params := queryParams
  withParams := withParams
  withoutParam url name := url.withParams (url.queryParams.remove name)
  withMerged url new := url.withParams (url.queryParams.merge new)

end Url

end KeyTree
