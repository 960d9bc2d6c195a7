import Aite.Http.Beast

/-!
# Error pages

Errors are answered by a page that names the status and describes what went wrong.
-/

namespace Aite

open Http

/-- Generates an error page given http status and error description details. -/
def showErrorPage (B : Beast) (statusCode : ℕ) (message : Text) : Response B :=
  let responseBody := text "<!DOCTYPE html><html><head><title>Error</title></head><body><h1>" ++
    B.reason statusCode ++ text " Error</h1><p>Description: " ++ message ++
    text "</p></body></html>"
  { result := statusCode
    fields := B.set (B.set B.empty (text "Content-Type") (text "text/html"))
      (text "Content-Length") (text (toString responseBody.length))
    body := responseBody }

end Aite
