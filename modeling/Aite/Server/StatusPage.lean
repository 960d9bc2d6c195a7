import Aite.Handlers.MemeHandler
import Aite.Lib.Histogram
import Aite.Session.RequestCounts
import Mathlib.Data.Nat.Log

/-!
# Pages about the server

Some handlers answer without looking at the request. The status page shows the locations of the
handlers and a table of all requests that were reported, in the order of the map that counts them:
by target, and for each target by status. The class of a status is its first digit, computed with
a logarithm that does not exist for the status that stands for all unknown ones. So the page is a
function of which requests were reported, in whatever order, and exists as long as all of their
statuses are known.
-/

namespace Aite

open Handlers Http KeyedList Routing

variable {B : Beast}

/-- A page of plain text. -/
def plainPage (B : Beast) (content : Text) : Response B where
  result := 200
  fields := B.set (B.set B.empty (text "Content-Type") (text "text/plain"))
    (text "Content-Length") (text (toString content.length))
  body := content

/-- Shows an error page if the path does not match any of the other serving paths. -/
def NotFoundRequestHandler.handleRequest (req : Request B) : Response B :=
  showErrorPage B 404 (text "Uri path " ++ req.target ++ text " not found")

/-- Answers after five seconds, which are left out. -/
def SleepHandler.handleRequest (_ : Request B) : Response B :=
  plainPage B (text "Slept for 5 seconds!\n")

/-- Answers that the server is there, if it is. -/
def HealthRequestHandler.handleRequest (parentServer : Bool) (_ : Request B) : Response B :=
  if parentServer then plainPage B (text "OK")
  else showErrorPage B 500 (text "Health Handler was not correctly initialized")

/-! ## The status page -/

/-- What the status page is made from: `get_requests()` and `get_prefix_map()`. -/
structure ServerView where
  requests : Requests
  handlerToPrefixes : List (Text × List Text)

/-- The order of `std::pair<std::string, http::status>`. -/
def reqRespPrecedes (a b : Text × ℕ) : Prop :=
  if a.1 = b.1 then a.2 ≤ b.2 else precedes a.1 b.1 = true

instance : DecidableRel reqRespPrecedes := fun a b => by
  unfold reqRespPrecedes
  infer_instance

/-- The entries in the order in which the map is iterated. -/
def requestsInOrder (requests : Requests) : Requests := sortedByKey reqRespPrecedes requests

/-- `(int)(status / pow(10, (int)log10(status)))`; the logarithm of zero is not a number that can
be converted. -/
def codeClass (status : ℕ) : Option ℕ :=
  if status = 0 then none else some (status / 10 ^ Nat.log 10 status)

/-- The rules of the page. -/
def statusHead : Text :=
  text "<!DOCTYPE html><html><link rel ='preconnect' href='https://fonts.gstatic.com'><link href" ++
    text "='https://fonts.googleapis.com/css2?family=Handlee&display=swap' rel='stylesheet'><style> body\x7b font-family: 'Handlee', cursive; font-size: 20px; display: block \x7d .code1\x7b background-color: cyan \x7d .code2\x7b background-color: green \x7d .code3\x7b background-color: yellow \x7d .code4\x7b background-color: red \x7d .code5\x7b background-color: orange \x7d td,th\x7b text-align: center; padding-right: 12px; border: 1px solid black \x7d td\x7b max-width: 200px; word-wrap: break-word \x7d table\x7b border: 1px solid black \x7d #handlers-list \x7b display: flex; flex-wrap: wrap \x7d .handler\x7b margin-right:12px \x7d </style><head><title>Status Page</title></head><body><h1>Status Page</h1>"

/-- The locations of one type of handlers. -/
def handlersEntry (entry : Text × List Text) : Text :=
  text "<div class=handler><b>" ++ entry.1 ++ text " Handler(s)</b><ol>" ++
    (entry.2.flatMap fun location => text "<li>" ++ location ++ text "</li>") ++ text "</ol></div>"

/-- Display the list of existing handlers. -/
def handlersList (handlerToPrefixes : List (Text × List Text)) : Text :=
  if handlerToPrefixes = [] then []
  else text "<div id='handlers-list'>" ++ (inOrder handlerToPrefixes).flatMap handlersEntry ++
    text "</div>"

/-- A row of the table, unless the class of its status does not exist. -/
def requestRow (B : Beast) (entry : (Text × ℕ) × ℕ) : Option Text :=
  (codeClass entry.1.2).map fun digit =>
    text "<tr><td>" ++ entry.1.1 ++ text "</td><td class=code" ++ text (toString digit) ++
      text ">" ++ text (toString entry.1.2) ++ text " " ++ B.reason entry.1.2 ++ text "</td><td>" ++
      text (toString entry.2) ++ text "</td></tr>"

/-- The loop over the requests: the rows of the table. -/
def requestRows (B : Beast) : Requests → Option Text
  | [] => some []
  | entry :: rest =>
    match requestRow B entry, requestRows B rest with
    | some row, some rows => some (row ++ rows)
    | _, _ => none

/-- Display the table of served requests and response codes. -/
def requestsTable (B : Beast) (requests : Requests) : Option Text :=
  if requests = [] then some []
  else (requestRows B (requestsInOrder requests)).map fun rows =>
    text "<table style = \"width:100%\"><tr><th>Requested URL</th><th>Response Status Code</th><th>Number of Requests</th></tr>" ++
      rows ++ text "</table>"

/-- The whole page. -/
def statusPage (B : Beast) (view : ServerView) : Option Text :=
  (requestsTable B view.requests).map fun table =>
    statusHead ++ handlersList view.handlerToPrefixes ++
      text "<b>Total Number of Requests Served : </b>" ++
      text (toString (view.requests.map Prod.snd).sum) ++ text "<br><br>" ++ table ++
      text "</body></html>"

/-- Answers with the page, unless it does not exist. -/
def StatusRequestHandler.handleRequest (parentServer : Option ServerView) (_ : Request B) :
    Option (Response B) :=
  match parentServer with
  | none => some (showErrorPage B 500 (text "Status Handler was not correctly initialized"))
  | some view => (statusPage B view).map (htmlPage B)

/-! ## The order of the requests -/

/-- The order of texts is total. -/
theorem precedes_total (s t : Text) : precedes s t = true ∨ precedes t s = true := by
  induction s generalizing t with
  | nil => exact .inl rfl
  | cons a s ih =>
    cases t with
    | nil => exact .inr rfl
    | cons b t =>
      simp only [precedes, Bool.or_eq_true, Bool.and_eq_true, decide_eq_true_eq, beq_iff_eq]
      by_cases hab : a = b
      · exact (ih t).imp (fun h => .inr ⟨hab, h⟩) (fun h => .inr ⟨hab.symm, h⟩)
      · exact (UInt8.lt_or_lt_of_ne hab).imp .inl .inl

/-- The order of texts is transitive. -/
theorem precedes_trans {s t u : Text} (hst : precedes s t = true) (htu : precedes t u = true) :
    precedes s u = true := by
  induction s generalizing t u with
  | nil => rfl
  | cons a s ih =>
    cases t with
    | nil => cases hst
    | cons b t =>
      cases u with
      | nil => cases htu
      | cons c u =>
        simp only [precedes, Bool.or_eq_true, Bool.and_eq_true, decide_eq_true_eq, beq_iff_eq]
          at hst htu ⊢
        rcases hst with hab | ⟨rfl, hst⟩
        · rcases htu with hbc | ⟨rfl, -⟩
          · exact .inl (UInt8.lt_trans hab hbc)
          · exact .inl hab
        · rcases htu with hbc | ⟨rfl, htu⟩
          · exact .inl hbc
          · exact .inr ⟨rfl, ih hst htu⟩

/-- Texts that precede each other are the same. -/
theorem precedes_antisymm {s t : Text} (hst : precedes s t = true) (hts : precedes t s = true) :
    s = t := by
  induction s generalizing t with
  | nil =>
    cases t with
    | nil => rfl
    | cons b t => cases hts
  | cons a s ih =>
    cases t with
    | nil => cases hst
    | cons b t =>
      simp only [precedes, Bool.or_eq_true, Bool.and_eq_true, decide_eq_true_eq, beq_iff_eq]
        at hst hts
      rcases hst with hab | ⟨rfl, hst⟩
      · rcases hts with hba | ⟨rfl, -⟩
        · exact absurd (UInt8.lt_trans hab hba) (UInt8.lt_irrefl a)
        · exact absurd hab (UInt8.lt_irrefl b)
      · rcases hts with hba | ⟨-, hts⟩
        · exact absurd hba (UInt8.lt_irrefl a)
        · rw [ih hst hts]

instance : Std.Total reqRespPrecedes where
  total a b := by
    unfold reqRespPrecedes
    by_cases h : a.1 = b.1
    · rw [if_pos h, if_pos h.symm]
      exact le_total a.2 b.2
    · rw [if_neg h, if_neg (Ne.symm h)]
      exact precedes_total a.1 b.1

instance : IsTrans (Text × ℕ) reqRespPrecedes where
  trans a b c hab hbc := by
    unfold reqRespPrecedes at hab hbc ⊢
    by_cases hl : a.1 = b.1
    · rw [if_pos hl] at hab
      rw [hl]
      split_ifs at hbc ⊢
      · exact le_trans hab hbc
      · exact hbc
    · rw [if_neg hl] at hab
      by_cases hr : b.1 = c.1
      · rw [← hr, if_neg hl]
        exact hab
      · rw [if_neg hr] at hbc
        by_cases hac : a.1 = c.1
        · exact absurd (precedes_antisymm hab (hac ▸ hbc)) hl
        · rw [if_neg hac]
          exact precedes_trans hab hbc

instance : Std.Antisymm reqRespPrecedes where
  antisymm a b hab hba := by
    unfold reqRespPrecedes at hab hba
    by_cases h : a.1 = b.1
    · rw [if_pos h] at hab
      rw [if_pos h.symm] at hba
      exact Prod.ext h (le_antisymm hab hba)
    · rw [if_neg h] at hab
      rw [if_neg (Ne.symm h)] at hba
      exact absurd (precedes_antisymm hab hba) h

/-! ## What the page shows -/

variable {requests : Requests} {reported others : List (Text × ℕ)}

/-- Counting one more request tallies one more report. -/
theorem isTally_logRequest (h : IsTally requests reported) (reqResp : Text × ℕ) :
    IsTally (logRequest requests reqResp) (reported ++ [reqResp]) :=
  h.alter fun v => by cases v <;> rfl

/-- Maps with the same entries are shown on the same page. -/
theorem statusPage_congr (B : Beast) {requests others : Requests} (h : requests.Perm others)
    (hkeys : (requests.map Prod.fst).Nodup) (handlerToPrefixes : List (Text × List Text)) :
    statusPage B ⟨requests, handlerToPrefixes⟩ = statusPage B ⟨others, handlerToPrefixes⟩ := by
  have hrows : requestsInOrder requests = requestsInOrder others :=
    sortedByKey_eq_of_perm reqRespPrecedes h hkeys
  have hempty : requests = [] ↔ others = [] := by
    rw [← List.length_eq_zero_iff, h.length_eq, List.length_eq_zero_iff]
  have htotal : (requests.map Prod.snd).sum = (others.map Prod.snd).sum := (h.map _).sum_nat
  simp only [statusPage, requestsTable, hrows, hempty, htotal]

/-- The page shows the histogram of the requests that were reported. -/
theorem statusPage_of_isTally (B : Beast) (h : IsTally requests reported)
    (handlerToPrefixes : List (Text × List Text)) :
    statusPage B ⟨requests, handlerToPrefixes⟩ =
      statusPage B ⟨histogram reported, handlerToPrefixes⟩ :=
  statusPage_congr B h.perm_histogram h.distinct handlerToPrefixes

/-- In which order requests are reported makes no difference to the page. -/
theorem statusPage_of_perm (B : Beast) (h : reported.Perm others)
    (handlerToPrefixes : List (Text × List Text)) :
    statusPage B ⟨histogram reported, handlerToPrefixes⟩ =
      statusPage B ⟨histogram others, handlerToPrefixes⟩ :=
  statusPage_congr B (histogram_perm h) (nodup_keys_histogram reported) handlerToPrefixes

end Aite
