import Aite.Config.Lookup
import Aite.Numerals

/-!
# The port that is listened on

The token of the port is converted without a check. It is used as a number whatever it is, and
the endpoint takes the lowest 16 bits of that. Only what converts to -1 is reported as missing:
numbers from 2^63 on, and those that are -1 modulo 2^32.
-/

namespace Aite.Config

open BlockGrammar Http

/-- What the constructor of the server comes to: an error in the log, or an acceptor. -/
inductive Startup where
  | failed (message : Text)
  | listening (port : ℕ)
  deriving DecidableEq, Repr

/-- The constructor `server::server` up to the acceptor. The endpoint truncates the port. -/
def server (createDirectoryFails : Bool) (config : Block Text) : Startup :=
  if createDirectoryFails then .failed (text "Failed to create meme directory")
  else
    let port_num := getPortNumber config
    if port_num = -1 then .failed (text "Failed to parse port number")
    else .listening (port_num % 65536).toNat

/-- The token is a port number in decimal. -/
structure IsPort (value : Text) : Prop where
  digits : ∀ c ∈ value, IsDigit c
  positive : 1 ≤ digitsValue value
  small : digitsValue value ≤ 65535

instance (value : Text) : Decidable (IsPort value) :=
  decidable_of_iff ((∀ c ∈ value, isDigit (charToInt c) = true) ∧ 1 ≤ digitsValue value ∧
    digitsValue value ≤ 65535)
    ⟨fun h => ⟨h.1, h.2.1, h.2.2⟩, fun h => ⟨h.digits, h.positive, h.small⟩⟩

/-- The number of the single port token, none when there is no such token or it is no port. -/
def configuredPort (config : Block Text) : Option ℕ :=
  match configLookup config [text "server"] (text "port") with
  | [value] => if IsPort value then some (digitsValue value) else none
  | _ => none

/-- The configured port is returned and listened on, or else it is reported as missing. -/
structure ReportsPort (config : Block Text) : Prop where
  number : getPortNumber config = ((configuredPort config).map Nat.cast).getD (-1)
  startup : server false config =
    ((configuredPort config).map Startup.listening).getD
      (.failed (text "Failed to parse port number"))

/-- The number at the start of the token is converted to -1. -/
def ReadsMinusOne (value : Text) : Prop :=
  let n := signedValue (signedDigits value)
  2 ^ 63 ≤ n ∨ -2 ^ 63 ≤ n ∧ n % 2 ^ 32 = 2 ^ 32 - 1

variable {value : Text} {config : Block Text}

/-- A balanced remainder is -1 exactly when the remainder is the last one. -/
private theorem bmod_eq_neg_one_iff (n : ℤ) :
    n.bmod 4294967296 = -1 ↔ n % 4294967296 = 4294967295 := by
  rw [Int.bmod_def]
  split_ifs <;> omega

/-- What `std::atoi` converts to -1. -/
theorem atoi_eq_neg_one_iff : atoi value = -1 ↔ ReadsMinusOne value := by
  rw [atoi, leadingNumber_eq, bmod_eq_neg_one_iff, ReadsMinusOne]
  generalize signedValue (signedDigits value) = n
  split_ifs <;> omega

/-- A port number has a digit. -/
private theorem IsPort.ne_nil (h : IsPort value) : value ≠ [] := by
  rintro rfl
  exact absurd h.positive (by decide)

/-- The number at the start of a port number is the port. -/
private theorem IsPort.signedValue (h : IsPort value) :
    Aite.signedValue (signedDigits value) = digitsValue value := by
  have hread := signedDigits_append (.inl ⟨rfl, rfl⟩)
    (⟨h.digits, by simp⟩ : IsLeadingDigits value []) h.ne_nil
  rw [List.append_nil, List.nil_append] at hread
  rw [hread]
  rfl

/-- A port number is converted to the port. -/
private theorem IsPort.atoi (h : IsPort value) : Aite.atoi value = digitsValue value := by
  have hsmall := h.small
  rw [Aite.atoi, leadingNumber_eq, h.signedValue, if_neg (by omega), if_neg (by omega)]
  exact Int.bmod_eq_of_le (by omega) (by omega)

/-- With a port number for its token, the port is as it should be. -/
private theorem IsPort.reportsPort (h : IsPort value)
    (hlookup : configLookup config [text "server"] (text "port") = [value]) :
    ReportsPort config := by
  have hport : configuredPort config = some (digitsValue value) := by
    rw [configuredPort, hlookup]
    exact if_pos h
  have hnumber : getPortNumber config = digitsValue value := by
    rw [getPortNumber, hlookup]
    exact h.atoi
  have hpositive := h.positive
  have hsmall := h.small
  constructor
  · rw [hnumber, hport]
    rfl
  · rw [server, hnumber, hport, if_neg Bool.false_ne_true, if_neg (by omega)]
    have htruncated : ((digitsValue value : ℤ) % 65536).toNat = digitsValue value := by omega
    rw [htruncated]
    rfl

/-- Without a configured port, all is well exactly when the conversion gives -1. -/
private theorem reportsPort_iff_of_none (hport : configuredPort config = none) :
    ReportsPort config ↔ getPortNumber config = -1 := by
  constructor
  · intro h
    rw [h.number, hport]
    rfl
  · intro hnumber
    constructor
    · rw [hnumber, hport]
      rfl
    · rw [server, hnumber, hport]
      rfl

/-- The port is valid or reported as missing exactly when a single token for it is a port number,
or begins with a number that is converted to -1. -/
theorem reportsPort_iff (config : Block Text) :
    ReportsPort config ↔
      ∀ value, configLookup config [text "server"] (text "port") = [value] →
        IsPort value ∨ ReadsMinusOne value := by
  by_cases hsingle : ∃ value, configLookup config [text "server"] (text "port") = [value]
  · obtain ⟨value, hlookup⟩ := hsingle
    have hvalues : (∀ other, configLookup config [text "server"] (text "port") = [other] →
        IsPort other ∨ ReadsMinusOne other) ↔ IsPort value ∨ ReadsMinusOne value := by
      rw [hlookup]
      constructor
      · exact fun h => h value rfl
      · intro h other hother
        exact List.singleton_inj.mp hother ▸ h
    rw [hvalues]
    by_cases hport : IsPort value
    · exact iff_of_true (hport.reportsPort hlookup) (.inl hport)
    · have hnone : configuredPort config = none := by
        rw [configuredPort, hlookup]
        exact if_neg hport
      rw [reportsPort_iff_of_none hnone, or_iff_right hport, ← atoi_eq_neg_one_iff, getPortNumber,
        hlookup]
  · have hnone : configuredPort config = none ∧ getPortNumber config = -1 := by
      unfold configuredPort getPortNumber
      cases hlookup : configLookup config [text "server"] (text "port") with
      | nil => exact ⟨rfl, rfl⟩
      | cons value others =>
        cases others with
        | nil => exact absurd ⟨value, hlookup⟩ hsingle
        | cons other others => exact ⟨rfl, rfl⟩
    rw [reportsPort_iff_of_none hnone.1]
    exact iff_of_true hnone.2 fun value hlookup => absurd ⟨value, hlookup⟩ hsingle

/-- A server block with this port. -/
def serverBlock (value : Text) : Block Text :=
  .nested [text "server"] (.simple [text "port", value] .empty) .empty

/-- A number too large for a port is listened on modulo 65536, and a token that is no number
becomes port 0. -/
theorem not_reportsPort_serverBlock :
    server false (serverBlock (text "65616")) = .listening 80 ∧
      server false (serverBlock (text "http")) = .listening 0 ∧
      ¬ ∀ config, ReportsPort config := by
  refine ⟨by decide, by decide, fun h => ?_⟩
  exact absurd (h (serverBlock (text "65616"))).number (by decide)

end Aite.Config
