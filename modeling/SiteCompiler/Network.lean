namespace SiteCompiler

structure Network.Response where
  status : Nat
  contentType : Option String
  body : ByteArray

def Network.Response.isSuccess (r : Response) : Bool :=
  200 ≤ r.status && r.status < 300

inductive Network.Failure where
  | hostNotFound
  | bodyLimit (limit : Nat)
  | tooManyRedirects
  | connectionRefused
deriving DecidableEq, Repr

def Network.Failure.message : Failure → String
  | .hostNotFound => "host not found"
  | .bodyLimit limit =>
    "the response body is larger than request limit: " ++ .ofList (Nat.toDigits 10 limit)
  | .tooManyRedirects => "too many redirects"
  | .connectionRefused => "io: Connection refused"

/-- The answers by URL, the answer of every other URL, and the requests so far, the latest first. -/
structure Network where
  answers : List (String × Except Network.Failure Network.Response)
  otherwise : Except Network.Failure Network.Response
  requests : List String

namespace Network

def absent : Response := ⟨404, none, "Not Found".toUTF8⟩

def answer (n : Network) (url : String) : Except Failure Response :=
  (n.answers.lookup url).getD n.otherwise

def get (n : Network) (url : String) : Except Failure Response × Network :=
  (n.answer url, { n with requests := url :: n.requests })

end Network
end SiteCompiler
