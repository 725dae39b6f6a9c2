import Husarnet.Config.SignatureData

/-! # Licences of any shape

A licence arrives over plain HTTP and is any document at all. The check looks for four members, and for the
signature; the text that is signed is made of twelve members, and the signature is read as 64 bytes whatever its
length. Which documents the check comes to an end on, with an answer.
-/

namespace Husarnet
open Octets JsonDoc StateProgram
set_option autoImplicit false

/-! ## The length of a decoded text -/

/-- The number of characters that `base64Decode` does not skip. -/
def base64Count (s : Bytes) : ℕ := s.countP fun c => c ∈ base64Characters

theorem charmap_eq_none {c : UInt8} : charmap c = none ↔ c ∉ base64Characters := List.idxOf?_eq_none_iff

/-- Every character adds six bits to those that are waiting, and a byte goes out whenever there are eight. -/
theorem base64Loop_length (s : Bytes) (val : UInt32) {waiting : ℕ} (h : waiting < 8) :
    (base64Loop val (waiting - 8) s).length = (6 * base64Count s + waiting) / 8 := by
  induction s generalizing val waiting with
  | nil =>
    simp only [base64Loop, base64Count, List.countP_nil, List.length_nil]
    omega
  | cons c s ih =>
    rw [base64Loop, base64Count, List.countP_cons, ← base64Count]
    cases hc : charmap c with
    | none =>
      have hskip : c ∉ base64Characters := charmap_eq_none.mp hc
      simp only [hskip, decide_false, Bool.false_eq_true, if_false]
      rw [ih val h]
      omega
    | some i =>
      have htaken : c ∈ base64Characters := by
        by_contra hskip
        rw [charmap_eq_none.mpr hskip] at hc
        cases hc
      simp only [htaken, decide_true, if_true]
      by_cases hfull : (0 : ℤ) ≤ (waiting : ℤ) - 8 + 6
      · have hleft : (waiting : ℤ) - 8 + 6 - 8 = ((waiting - 2 : ℕ) : ℤ) - 8 := by omega
        rw [if_pos hfull, List.length_cons, hleft, ih _ (by omega)]
        omega
      · have hleft : (waiting : ℤ) - 8 + 6 = ((waiting + 6 : ℕ) : ℤ) - 8 := by omega
        rw [if_neg hfull, hleft, ih _ (by omega)]
        omega

theorem base64Decode_length (s : Bytes) : (base64Decode s).length = 6 * base64Count s / 8 :=
  @base64Loop_length s 0 0 (by omega)

/-! ## Members with a type -/

def HasNumber (j : Json) (key : Bytes) : Prop := ∃ v, j.find? key = some v ∧ v.IsArithmetic

def HasString (j : Json) (key : Bytes) : Prop := ∃ s, j.find? key = some (.string s)

/-- The loop over the member visits strings only. -/
def HasStrings (j : Json) (key : Bytes) : Prop := ∃ v, j.find? key = some v ∧ ∀ x ∈ v.elements, ∃ s, x = .string s

section Readers
variable {j : Json} {key : Bytes}

theorem string_completes : (∃ s, j.member key >>= Json.getString = .ok s) ↔ HasString j key := by
  rw [Json.member_completes, HasString]
  constructor
  · rintro ⟨v, hv, h⟩
    obtain ⟨s, rfl⟩ := Json.getString_completes.mp h
    exact ⟨s, hv⟩
  · rintro ⟨s, hs⟩
    exact ⟨_, hs, s, rfl⟩

theorem stringLine_completes : (∃ s, stringLine j key = .ok s) ↔ HasString j key := by
  rw [← string_completes, Json.member_completes, stringLine, Json.member_completes]
  simp only [except_map_completes]

theorem intLine_completes : (∃ s, intLine j key = .ok s) ↔ HasNumber j key := by
  rw [intLine, Json.member_completes, HasNumber]
  simp only [except_map_completes, Json.getInt_completes]

theorem appendList_completes (s : Bytes) : (∃ t, appendList j key s = .ok t) ↔ HasStrings j key := by
  rw [appendList, Json.member_completes, HasStrings]
  simp only [except_map_completes, Json.mapM_getString_completes]

end Readers

/-! ## The check -/

/-- The members that the signed text is made of, each with its type. -/
structure SignedMembers (j : Json) : Prop where
  version : HasNumber j LICENSE_VERSION_KEY
  installationId : HasString j LICENSE_INSTALLATION_ID_KEY
  licenseId : HasString j LICENSE_LICENSE_ID_KEY
  name : HasString j LICENSE_NAME_KEY
  maxDevices : HasNumber j LICENSE_MAX_DEVICES_KEY
  dashboardUrl : HasString j LICENSE_DASHBOARD_URL_KEY
  websetupHost : HasString j LICENSE_WEBSETUP_HOST_KEY
  baseServerAddresses : HasStrings j LICENSE_BASE_SERVER_ADDRESSES_KEY
  apiServers : HasStrings j LICENSE_API_SERVERS_KEY
  ebServers : HasStrings j LICENSE_EB_SERVERS_KEY
  issued : HasString j LICENSE_ISSUED_KEY
  validUntil : HasString j LICENSE_VALID_UNTIL_KEY

theorem generateSignatureData_completes (j : Json) : (∃ s, generateSignatureData j = .ok s) ↔ SignedMembers j := by
  have hlast (s : Bytes) : (∃ t, (do
      let issued ← stringLine j LICENSE_ISSUED_KEY
      let s := s ++ issued
      return s ++ (← (← j.member LICENSE_VALID_UNTIL_KEY).getString) : Except Fault Bytes) = .ok t) ↔
      HasString j LICENSE_ISSUED_KEY ∧ HasString j LICENSE_VALID_UNTIL_KEY := by
    refine except_bind_completes stringLine_completes fun issued => ?_
    rw [← string_completes, Json.member_completes, Json.member_completes]
    simp only [except_map_completes]
  have hall : (∃ s, generateSignatureData j = .ok s) ↔ _ :=
    except_bind_completes intLine_completes fun _ => except_bind_completes stringLine_completes fun _ =>
      except_bind_completes stringLine_completes fun _ => except_bind_completes stringLine_completes fun _ =>
        except_bind_completes intLine_completes fun _ => except_bind_completes stringLine_completes fun _ =>
          except_bind_completes stringLine_completes fun _ => except_bind_completes (appendList_completes _) fun _ =>
            except_bind_completes (appendList_completes _) fun _ => except_bind_completes (appendList_completes _) fun s =>
              hlast s
  rw [hall]
  constructor
  · rintro ⟨h₁, h₂, h₃, h₄, h₅, h₆, h₇, h₈, h₉, h₁₀, h₁₁, h₁₂⟩
    exact ⟨h₁, h₂, h₃, h₄, h₅, h₆, h₇, h₈, h₉, h₁₀, h₁₁, h₁₂⟩
  · rintro ⟨h₁, h₂, h₃, h₄, h₅, h₆, h₇, h₈, h₉, h₁₀, h₁₁, h₁₂⟩
    exact ⟨h₁, h₂, h₃, h₄, h₅, h₆, h₇, h₈, h₉, h₁₀, h₁₁, h₁₂⟩

/-- Without one of these the check says no before it reads anything. -/
def CHECKED_KEYS : List Bytes :=
  [LICENSE_DASHBOARD_URL_KEY, LICENSE_BASE_SERVER_ADDRESSES_KEY, LICENSE_API_SERVERS_KEY, LICENSE_EB_SERVERS_KEY,
    LICENSE_SIGNATURE_V2_KEY]

/-- The signature is a string with 64 bytes or more behind its base64 form. -/
def LongSignature (j : Json) : Prop := ∃ s, j.find? LICENSE_SIGNATURE_V2_KEY = some (.string s) ∧ 86 ≤ base64Count s

theorem not_isEmpty_of_contains {j : Json} {key : Bytes} (h : j.contains key = true) : j.isEmpty = false := by
  cases j with
  | object ms =>
    cases ms with
    | nil => cases h
    | cons m ms => rfl
  | _ => cases h

theorem isJsonValid_and_signed {j : Json} :
    isJsonValid (some j) = true ∧ j.contains LICENSE_SIGNATURE_V2_KEY = true ↔ ∀ key ∈ CHECKED_KEYS, j.contains key = true := by
  simp only [CHECKED_KEYS, List.forall_mem_cons, List.not_mem_nil, false_imp_iff, implies_true, and_true, isJsonValid,
    Bool.and_eq_true, Bool.not_eq_true']
  constructor
  · rintro ⟨⟨-, ⟨⟨hurl, hbase⟩, hapi⟩, heb⟩, hsig⟩
    exact ⟨hurl, hbase, hapi, heb, hsig⟩
  · rintro ⟨hurl, hbase, hapi, heb, hsig⟩
    exact ⟨⟨not_isEmpty_of_contains hurl, ⟨⟨hurl, hbase⟩, hapi⟩, heb⟩, hsig⟩

theorem access_completes {α : Type} {x : Except Fault α} : (∃ a, access x = .ok a) ↔ ∃ a, x = .ok a := by
  cases x <;> simp [access, Except.mapError]

/-- The signature check comes to an end if and only if there is something to check. -/
theorem verifyLicenseSignature_completes (S : Sodium) {j : Json} (h : j.contains LICENSE_SIGNATURE_V2_KEY = true) :
    (∃ b, verifyLicenseSignature S j = .ok b) ↔ SignedMembers j ∧ LongSignature j := by
  have hdataIff := access_completes.trans (generateSignatureData_completes j)
  rw [verifyLicenseSignature, h]
  constructor
  · rintro ⟨b, hb⟩
    obtain ⟨declared, hdeclared, hb⟩ := except_bind_eq_ok.mp hb
    obtain ⟨s, hs, hb⟩ := except_bind_eq_ok.mp hb
    obtain ⟨signatureData, hdata, hchecked⟩ := except_bind_eq_ok.mp hb
    obtain ⟨v, hv⟩ := access_completes.mp ⟨declared, hdeclared⟩
    rw [hv] at hdeclared
    cases hdeclared
    obtain ⟨t, ht⟩ := access_completes.mp ⟨s, hs⟩
    obtain ⟨u, rfl⟩ := Json.getString_completes.mp ⟨t, ht⟩
    cases hs
    refine ⟨hdataIff.mp ⟨signatureData, hdata⟩, s, Json.member_eq_ok.mp hv, ?_⟩
    by_contra hshort
    have hlength := base64Decode_length s
    rw [FString.ofString, dif_neg (by omega)] at hchecked
    cases hchecked
  · rintro ⟨hmembers, s, hs, hlong⟩
    obtain ⟨signatureData, hdata⟩ := hdataIff.mpr hmembers
    have hlength := base64Decode_length s
    have hlong : 64 ≤ (base64Decode s).length := by omega
    rw [Json.member_of_find? hs]
    refine ⟨PUBLIC_KEY.any fun key => S.verifyDetached ⟨(base64Decode s).take 64, List.length_take_of_le hlong⟩ signatureData key,
      except_bind_eq_ok.mpr ⟨_, rfl, except_bind_eq_ok.mpr ⟨s, rfl, except_bind_eq_ok.mpr ⟨signatureData, hdata, ?_⟩⟩⟩⟩
    rw [FString.ofString, dif_pos hlong]
    rfl

/-- **When the check of a licence comes to an end.** It answers on a document of any shape, if and only if
the document is discarded, or lacks one of the five members that are looked for, or has every member that
the signed text is made of with its type and at least 86 base64 characters of signature. -/
theorem license_check_total_iff (S : Sodium) (licenseJson : Option Json) :
    (∃ b, isLicenseValid S licenseJson = .ok b) ↔
      ∀ j, licenseJson = some j → (∀ key ∈ CHECKED_KEYS, j.contains key = true) → SignedMembers j ∧ LongSignature j := by
  cases licenseJson with
  | none => exact iff_of_true ⟨false, rfl⟩ fun j h => by cases h
  | some j =>
    simp only [Option.some.injEq, forall_eq', ← isJsonValid_and_signed]
    rw [isLicenseValid]
    cases hvalid : isJsonValid (some j) with
    | false => exact iff_of_true ⟨false, rfl⟩ fun h => by cases h.1
    | true =>
      cases hsigned : j.contains LICENSE_SIGNATURE_V2_KEY with
      | false =>
        refine iff_of_true ⟨false, ?_⟩ fun h => by cases h.2
        show verifyLicenseSignature S j = _
        rw [verifyLicenseSignature, hsigned]
        rfl
      | true =>
        have hverify := verifyLicenseSignature_completes S hsigned
        exact hverify.trans ⟨fun h _ => h, fun h => h ⟨rfl, rfl⟩⟩

/-- A document with the five members that are looked for and no other. -/
def bareLicense : Json :=
  .object [(LICENSE_DASHBOARD_URL_KEY, .string []), (LICENSE_BASE_SERVER_ADDRESSES_KEY, .array []),
    (LICENSE_API_SERVERS_KEY, .array []), (LICENSE_EB_SERVERS_KEY, .array []), (LICENSE_SIGNATURE_V2_KEY, .string [])]

/-- The version is read without a look whether it is there. -/
theorem bare_license_faults : ¬ ∃ b, isLicenseValid clearSodium (some bareLicense) = .ok b := by
  have hfault : isLicenseValid clearSodium (some bareLicense) = .error (.json .missingMember) := by decide +kernel
  rintro ⟨b, hb⟩
  rw [hfault] at hb
  cases hb

end Husarnet
