import RepoDocs.Failure
import RepoDocs.Http.Status

/-! What the refusals of the GitHub API mean. -/

namespace RepoDocs.GitHub

/-- What a response without success means, given whether it says that no requests are left. -/
def rejection (status : Http.Status) (quotaExhausted : Bool) : SourceError :=
  let limited := SourceError.rateLimited "GitHub API rate limit exceeded"
  match status.code with
  | 404 => .notFound "Repository not found or is private"
  | 429 => limited
  | 403 => if quotaExhausted then limited else .accessDenied "Access denied by the GitHub API"
  | _ => .other s!"GitHub API error: {status.text}"

end RepoDocs.GitHub
