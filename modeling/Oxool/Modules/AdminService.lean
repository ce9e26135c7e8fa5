import Oxool.Browser.HexUrl
import Oxool.Kit.Invalidations

/-!
# The password of the admin console (`OxOOL/ModuleManager/AdminService.cpp`, `OxOOL/OxOOL.cpp`, `OxOOL/Util.cpp`)

`setAdminPassword` stores the user name and a hash of the password. A login hashes the password it
is given with the same salt and compares. `isConfigAuthOk` is to answer what a login would, but
hands on its tokens as they came, still percent-encoded; and the hash ends at the first NUL of a
password (`accepts_iff`).

The build has `PKCS5_PBKDF2_HMAC`. `none` is an exception.
-/

set_option autoImplicit false

namespace Oxool.Modules.AdminService

open Oxool.Http (Bytes ascii)
open Oxool.Wsd (dataToHexString dataFromHexString hexOfByte)
open Oxool.Kit (stoi)
open Oxool.Protocol (decimal)

/-! ## The code -/

/-- What the code takes from elsewhere: `Poco::URI::decode`, the configuration of Poco with its properties, the
references to other properties that `getString` puts in, the key derivation, the lists of the modules, and
the cookie of a login. -/
structure Outside where
  decodeURIComponent : Bytes → Option Bytes
  Config : Type
  rawValue : Config → Bytes → Option Bytes
  setString : Config → (key value : Bytes) → Config
  remove : Config → Bytes → Config
  expand : Bytes → Bytes
  pkcs5Pbkdf2Hmac : (password salt : Bytes) → (iterations : Int) → (length : Nat) → Bytes
  getAllModuleDetailsJsonString : Bytes → Bytes
  getAdminModuleDetailsJsonString : Bytes → Bytes
  cookie : Bytes

/-- `getString`, with an empty string for the default. -/
def Outside.getString (outside : Outside) (config : outside.Config) (key : Bytes) : Bytes :=
  (outside.rawValue config key).elim [] outside.expand

/-- `has`. -/
def Outside.has (outside : Outside) (config : outside.Config) (key : Bytes) : Bool :=
  (outside.rawValue config key).isSome

def username : Bytes := ascii "admin_console.username"
def password : Bytes := ascii "admin_console.password"
def securePassword : Bytes := ascii "admin_console.secure_password"
def securePasswordDesc : Bytes := ascii "admin_console.secure_password[@desc]"

def pwdSaltLength : Nat := 128
def pwdIterations : Int := 10000
def pwdHashLength : Nat := 128

def dot : UInt8 := 46

/-- A string as C has it. -/
def cStr (s : Bytes) : Bytes := s.takeWhile (· != 0)

variable (outside : Outside)

/-- `OxOOL::isConfigAuthOk`. -/
def isConfigAuthOk (config : outside.Config) (userProvidedUsr userProvidedPwd : Bytes) : Option Bool :=
  let user := outside.getString config username
  if user = [] then some false
  else if user ≠ userProvidedUsr then some false
  else if outside.has config securePassword then
    let securePass := outside.getString config securePassword
    if securePass = [] then some false
    else
      match tokenize securePass dot with
      | [scheme, digest, iterations, salt, hash] =>
        if scheme ≠ ascii "pbkdf2" ∨ digest ≠ ascii "sha512" then some false
        else
          match dataFromHexString salt, stoi iterations with
          | none, _ => some false
          | some _, .error _ => none
          | some saltData, .ok iterations =>
            some (hash == dataToHexString
              (outside.pkcs5Pbkdf2Hmac (cStr userProvidedPwd) saltData iterations (hash.length / 2)))
      | _ => some false
  else
    let pass := outside.getString config password
    if pass = [] then some false else some (pass == userProvidedPwd)

/-- `OxOOL::Util::isConfigAuthOk`, the same but for its log. -/
def Util.isConfigAuthOk (config : outside.Config) (username password : Bytes) : Option Bool :=
  AdminService.isConfigAuthOk outside config username password

/-- What `setAdminPassword` stores of a password. -/
def pwdConfigValue (salt adminPwd : Bytes) : Bytes :=
  ascii "pbkdf2.sha512." ++ decimal pwdIterations ++ ascii "." ++ dataToHexString salt ++ ascii "." ++
    dataToHexString (outside.pkcs5Pbkdf2Hmac (cStr adminPwd) salt pwdIterations pwdHashLength)

/-- The configuration that `setAdminPassword` saves, of the one in the file. -/
def setAdminPassword (file : outside.Config) (salt adminUser adminPwd : Bytes) : outside.Config :=
  let config := outside.setString file username adminUser
  let config := outside.remove config password
  let config := outside.setString config securePasswordDesc
    (ascii "Salt and password hash combination generated using PBKDF2 with SHA512 digest.")
  outside.setString config securePassword (pwdConfigValue outside salt adminPwd)

/-- `AdminService::handleAdminMessage`, of the configuration in effect, the one in the file and the
next salt: the answer, and the configuration in the file. -/
def handleAdminMessage (config file : outside.Config) (salt : Bytes) (tokens : List Bytes) :
    Option (Bytes × outside.Config) :=
  if tokens.head? = some (ascii "getModuleList") ∨ tokens.head? = some (ascii "getAdminModuleList") then
    let langTag := tokens.getD 1 []
    if tokens.head? = some (ascii "getModuleList") then
      some (ascii "modules: " ++ outside.getAllModuleDetailsJsonString langTag, file)
    else some (ascii "adminmodules: " ++ outside.getAdminModuleDetailsJsonString langTag, file)
  else if tokens.head? = some (ascii "isConfigAuthOk") ∧ tokens.length = 3 then do
    let _ ← outside.decodeURIComponent (tokens.getD 1 [])
    let _ ← outside.decodeURIComponent (tokens.getD 2 [])
    if ← isConfigAuthOk outside config (tokens.getD 1 []) (tokens.getD 2 []) then
      return (ascii "ConfigAuthOk", file)
    else return (ascii "ConfigAuthWrong", file)
  else if tokens.head? = some (ascii "setAdminPassword") ∧ tokens.length = 3 then do
    let adminUser ← outside.decodeURIComponent (tokens.getD 1 [])
    let adminPwd ← outside.decodeURIComponent (tokens.getD 2 [])
    return (ascii "setAdminPasswordOk", setAdminPassword outside file salt adminUser adminPwd)
  else some (ascii "Unknown command:" ++ tokens.getD 0 [], file)

/-- `AdminService::login`: the headers of the answer besides its own. -/
def login (config : outside.Config) (account password : Bytes) : Option (List (Bytes × Bytes)) := do
  if ← Util.isConfigAuthOk outside config account password then
    return [(ascii "Set-Cookie", outside.cookie)]
  else return []

/-! ## What was stored is read back -/

theorem dataToHexString_injective {data data' : Bytes}
    (h : dataToHexString data = dataToHexString data') :
    data = data' := by
  have hdata := Browser.dataFromHexString_dataToHexString data
  rw [h, Browser.dataFromHexString_dataToHexString, Option.some.injEq] at hdata
  exact hdata.symm

theorem isToken_dataToHexString {data : Bytes} (hne : data ≠ []) :
    IsToken dot (dataToHexString data) := by
  have hplain : ∀ b, Plain dot (hexOfByte b) := by
    apply Http.forall_byte
    decide +kernel
  constructor
  · obtain ⟨b, bs, rfl⟩ := List.exists_cons_of_ne_nil hne
    exact List.cons_ne_nil _ _
  · intro c hc
    obtain ⟨b, _, hc⟩ := List.mem_flatMap.mp hc
    exact hplain b c hc

theorem zero_not_mem_cStr (s : Bytes) : 0 ∉ cStr s := by
  intro h
  exact absurd (List.mem_takeWhile_imp (p := (· != 0)) h) (by decide)

/-- What the parameters are to do: a property that is set has the value, the user name is none of those of the
password, Poco leaves a value without references alone, a derived key has the length that is asked for, and no
other password has the key of this one. -/
structure Ideal (outside : Outside) (salt adminPwd : Bytes) : Prop where
  rawValue_setString : ∀ config key value, outside.rawValue (outside.setString config key value) key = some value
  username_setString : ∀ config value, ∀ key ∈ [securePasswordDesc, securePassword],
    outside.rawValue (outside.setString config key value) username = outside.rawValue config username
  username_remove : ∀ config,
    outside.rawValue (outside.remove config password) username = outside.rawValue config username
  expand : ∀ s, 36 ∉ s → outside.expand s = s
  length : ∀ pwd salt iterations length, (outside.pkcs5Pbkdf2Hmac pwd salt iterations length).length = length
  injective : ∀ pwd, 0 ∉ pwd →
    outside.pkcs5Pbkdf2Hmac pwd salt pwdIterations pwdHashLength =
      outside.pkcs5Pbkdf2Hmac (cStr adminPwd) salt pwdIterations pwdHashLength → pwd = cStr adminPwd

section
variable {outside : Outside} {salt adminPwd : Bytes}

/-- The five tokens of what is stored. -/
theorem tokenize_pwdConfigValue (h : Ideal outside salt adminPwd) (hsalt : salt ≠ []) :
    tokenize (pwdConfigValue outside salt adminPwd) dot = [ascii "pbkdf2", ascii "sha512", decimal pwdIterations,
      dataToHexString salt, dataToHexString
        (outside.pkcs5Pbkdf2Hmac (cStr adminPwd) salt pwdIterations pwdHashLength)] := by
  have hhash : outside.pkcs5Pbkdf2Hmac (cStr adminPwd) salt pwdIterations pwdHashLength ≠ [] := by
    intro hnil
    have hlength := h.length (cStr adminPwd) salt pwdIterations pwdHashLength
    rw [hnil] at hlength
    exact absurd hlength (by decide)
  have hfields : pwdConfigValue outside salt adminPwd = ascii "pbkdf2" ++ fields dot [ascii "sha512",
      decimal pwdIterations, dataToHexString salt, dataToHexString
        (outside.pkcs5Pbkdf2Hmac (cStr adminPwd) salt pwdIterations pwdHashLength)] := by
    simp only [pwdConfigValue, fields, List.flatMap_cons, List.flatMap_nil, List.append_assoc,
      List.append_nil]
    rfl
  rw [hfields]
  refine tokenize_fields (by decide) (by decide) (by decide) ?_
  intro t ht
  simp only [List.mem_cons, List.not_mem_nil, or_false] at ht
  rcases ht with rfl | rfl | rfl | rfl
  · decide
  · decide
  · exact isToken_dataToHexString hsalt
  · exact isToken_dataToHexString hhash

/-- Nothing in what is stored looks like a reference. -/
theorem expand_pwdConfigValue (h : Ideal outside salt adminPwd) :
    outside.expand (pwdConfigValue outside salt adminPwd) = pwdConfigValue outside salt adminPwd := by
  have hhex : ∀ data : Bytes, (36 : UInt8) ∉ dataToHexString data := by
    intro data hmem
    obtain ⟨b, _, hb⟩ := List.mem_flatMap.mp hmem
    have hbyte : ∀ b : UInt8, 36 ∉ hexOfByte b := by
      apply Http.forall_byte
      decide +kernel
    exact hbyte b hb
  apply h.expand
  simp only [pwdConfigValue, List.mem_append, not_or]
  exact ⟨⟨⟨⟨⟨by decide, by decide⟩, by decide⟩, hhex _⟩, by decide⟩, hhex _⟩

/-- What the server answers once the password is set. -/
theorem isConfigAuthOk_setAdminPassword (h : Ideal outside salt adminPwd) (hsalt : salt ≠ [])
    (file : outside.Config)
    (adminUser usr pwd : Bytes) :
    isConfigAuthOk outside (setAdminPassword outside file salt adminUser adminPwd) usr pwd =
      some (decide (outside.expand adminUser ≠ [] ∧ outside.expand adminUser = usr ∧ cStr pwd = cStr adminPwd)) := by
  have huser : outside.getString (setAdminPassword outside file salt adminUser adminPwd) username =
      outside.expand adminUser := by
    rw [Outside.getString, setAdminPassword, h.username_setString _ _ _ (List.mem_cons_of_mem _ List.mem_cons_self),
      h.username_setString _ _ _ List.mem_cons_self, h.username_remove, h.rawValue_setString, Option.elim_some]
  have hvalue : outside.rawValue (setAdminPassword outside file salt adminUser adminPwd) securePassword =
      some (pwdConfigValue outside salt adminPwd) := h.rawValue_setString _ _ _
  have hsecure : outside.has (setAdminPassword outside file salt adminUser adminPwd) securePassword = true := by
    rw [Outside.has, hvalue, Option.isSome_some]
  have hget : outside.getString (setAdminPassword outside file salt adminUser adminPwd) securePassword =
      pwdConfigValue outside salt adminPwd := by
    rw [Outside.getString, hvalue, Option.elim_some, expand_pwdConfigValue h]
  have hne : pwdConfigValue outside salt adminPwd ≠ [] := List.cons_ne_nil _ _
  have hstoi : stoi (decimal pwdIterations) = .ok pwdIterations := by
    apply Kit.stoi_decimal
    decide
  have hhash : (dataToHexString (outside.pkcs5Pbkdf2Hmac (cStr adminPwd) salt pwdIterations pwdHashLength) ==
      dataToHexString (outside.pkcs5Pbkdf2Hmac (cStr pwd) salt pwdIterations pwdHashLength)) =
        decide (cStr pwd = cStr adminPwd) := by
    rw [Bool.eq_iff_iff, beq_iff_eq, decide_eq_true_iff]
    constructor
    · intro heq
      exact h.injective _ (zero_not_mem_cStr pwd) (dataToHexString_injective heq).symm
    · intro heq
      rw [heq]
  rw [isConfigAuthOk, huser]
  by_cases hempty : outside.expand adminUser = []
  · simp [hempty]
  · by_cases husr : outside.expand adminUser = usr
    · obtain rfl := husr
      rw [if_neg hempty, if_neg (not_not_intro rfl), hsecure, hget, if_pos rfl]
      dsimp only
      rw [if_neg hne, tokenize_pwdConfigValue h hsalt]
      dsimp only
      rw [if_neg (by simp), Browser.dataFromHexString_dataToHexString, hstoi]
      dsimp only
      rw [Wsd.length_dataToHexString, h.length, Nat.mul_div_cancel_left _ Nat.zero_lt_two, hhash]
      simp [hempty]
    · rw [if_neg hempty, if_pos husr]
      simp [husr]

end

/-! ## What was set is what is accepted -/

/-- With `config` in effect, `isConfigAuthOk` and the login accept the user name and the password
that were set, and no others. The tokens are those of the command, first for what was set, then for
`usr` and `pwd`. -/
structure Accepts (outside : Outside) (config : outside.Config)
    (eu ep adminUser adminPwd eu' ep' usr pwd : Bytes) : Prop where
  check : ∀ file salt, (handleAdminMessage outside config file salt [ascii "isConfigAuthOk", eu, ep]).map Prod.fst =
    some (ascii "ConfigAuthOk")
  login : login outside config adminUser adminPwd = some [(ascii "Set-Cookie", outside.cookie)]
  refusesCheck : (usr, pwd) ≠ (adminUser, adminPwd) → ∀ file salt,
    (handleAdminMessage outside config file salt [ascii "isConfigAuthOk", eu', ep']).map Prod.fst =
      some (ascii "ConfigAuthWrong")
  refusesLogin : (usr, pwd) ≠ (adminUser, adminPwd) → AdminService.login outside config usr pwd = some []

section
variable {outside : Outside} {config : outside.Config}

theorem login_eq {usr pwd : Bytes} {ok : Bool}
    (h : isConfigAuthOk outside config usr pwd = some ok) :
    login outside config usr pwd = some (if ok then [(ascii "Set-Cookie", outside.cookie)] else []) := by
  rw [login, Util.isConfigAuthOk, h]
  cases ok <;> rfl

/-- `isConfigAuthOk` answers for its tokens as they are. -/
theorem check_eq {eu ep usr pwd : Bytes} {ok : Bool}
    (heu : outside.decodeURIComponent eu = some usr)
    (hep : outside.decodeURIComponent ep = some pwd) (h : isConfigAuthOk outside config eu ep = some ok)
    (file : outside.Config) (salt : Bytes) :
    (handleAdminMessage outside config file salt [ascii "isConfigAuthOk", eu, ep]).map Prod.fst =
      some (if ok then ascii "ConfigAuthOk" else ascii "ConfigAuthWrong") := by
  have hcommand : ¬ ((some (ascii "isConfigAuthOk") : Option Bytes) = some (ascii "getModuleList") ∨
      (some (ascii "isConfigAuthOk") : Option Bytes) = some (ascii "getAdminModuleList")) := by decide
  rw [handleAdminMessage, List.head?_cons, if_neg hcommand, if_pos ⟨rfl, rfl⟩]
  simp only [List.getD_cons_succ, List.getD_cons_zero, heu, hep, h, Option.bind_eq_bind,
    Option.bind_some]
  cases ok <;> rfl

/-- `setAdminPassword` decodes its tokens. -/
theorem handleAdminMessage_setAdminPassword {eu ep adminUser adminPwd : Bytes}
    (heu : outside.decodeURIComponent eu = some adminUser) (hep : outside.decodeURIComponent ep = some adminPwd)
    (file : outside.Config) (salt : Bytes) :
    handleAdminMessage outside config file salt [ascii "setAdminPassword", eu, ep] =
      some (ascii "setAdminPasswordOk", setAdminPassword outside file salt adminUser adminPwd) := by
  have hlist : ¬ ((some (ascii "setAdminPassword") : Option Bytes) = some (ascii "getModuleList") ∨
      (some (ascii "setAdminPassword") : Option Bytes) = some (ascii "getAdminModuleList")) := by decide
  have hcheck : ¬ ((some (ascii "setAdminPassword") : Option Bytes) = some (ascii "isConfigAuthOk") ∧
      [ascii "setAdminPassword", eu, ep].length = 3) := fun h => absurd h.1 (by decide)
  rw [handleAdminMessage, List.head?_cons, if_neg hlist, if_neg hcheck, if_pos ⟨rfl, rfl⟩]
  simp only [List.getD_cons_succ, List.getD_cons_zero, heu, hep, Option.bind_eq_bind,
    Option.bind_some]
  rfl

variable {old file : outside.Config} {salt eu ep adminUser adminPwd eu' ep' usr pwd reply : Bytes}

/-- What was set is accepted just if its tokens are what they stand for, but for what is behind a
NUL in the password, and nothing else is just if it, and its tokens, differ from that before any
NUL. -/
theorem accepts_iff (h : Ideal outside salt adminPwd) (hsalt : salt.length = pwdSaltLength)
    (hne : adminUser ≠ [])
    (heu : outside.decodeURIComponent eu = some adminUser) (hep : outside.decodeURIComponent ep = some adminPwd)
    (heu' : outside.decodeURIComponent eu' = some usr) (hep' : outside.decodeURIComponent ep' = some pwd)
    (hset : handleAdminMessage outside old file salt [ascii "setAdminPassword", eu, ep] = some (reply, config)) :
    Accepts outside config eu ep adminUser adminPwd eu' ep' usr pwd ↔
      outside.expand adminUser = adminUser ∧ (eu = adminUser ∧ cStr ep = cStr adminPwd) ∧
        ((usr, pwd) ≠ (adminUser, adminPwd) → ¬ (eu' = adminUser ∧ cStr ep' = cStr adminPwd) ∧
          ¬ (usr = adminUser ∧ cStr pwd = cStr adminPwd)) := by
  rw [handleAdminMessage_setAdminPassword heu hep, Option.some.injEq, Prod.mk.injEq] at hset
  obtain ⟨-, rfl⟩ := hset
  have hsalt : salt ≠ [] := by
    rintro rfl
    exact absurd hsalt (by decide)
  have hanswer := isConfigAuthOk_setAdminPassword h hsalt file adminUser
  have hcheck := fun file' salt' => check_eq heu hep (hanswer eu ep) file' salt'
  have hlogin := login_eq (hanswer adminUser adminPwd)
  have hcheck' := fun file' salt' => check_eq heu' hep' (hanswer eu' ep') file' salt'
  have hlogin' := login_eq (hanswer usr pwd)
  constructor
  · intro haccepts
    have hwrong : ascii "ConfigAuthWrong" ≠ ascii "ConfigAuthOk" := by decide
    have hcookie : [] ≠ [(ascii "Set-Cookie", outside.cookie)] := (List.cons_ne_nil _ _).symm
    have hchecked := (hcheck file salt).symm.trans (haccepts.check file salt)
    rw [Option.some.injEq, ite_eq_left_iff] at hchecked
    obtain ⟨-, huser, hpwd⟩ := of_decide_eq_true (not_not.mp fun hno => hwrong (hchecked hno))
    have hlogged := hlogin.symm.trans haccepts.login
    rw [Option.some.injEq, ite_eq_left_iff] at hlogged
    obtain ⟨-, hexpand, -⟩ := of_decide_eq_true (not_not.mp fun hno => hcookie (hlogged hno))
    rw [hexpand] at hcheck' hlogin' huser
    refine ⟨hexpand, ⟨huser.symm, hpwd⟩, fun hdiffer => ⟨?_, ?_⟩⟩
    · rintro ⟨rfl, hsame⟩
      have hrefused := (hcheck' file salt).symm.trans (haccepts.refusesCheck hdiffer file salt)
      rw [Option.some.injEq, ite_eq_right_iff] at hrefused
      exact hwrong.symm (hrefused (decide_eq_true ⟨hne, rfl, hsame⟩))
    · rintro ⟨rfl, hsame⟩
      have hrefused := hlogin'.symm.trans (haccepts.refusesLogin hdiffer)
      rw [Option.some.injEq, ite_eq_right_iff] at hrefused
      exact hcookie.symm (hrefused (decide_eq_true ⟨hne, rfl, hsame⟩))
  · rintro ⟨hexpand, ⟨rfl, hpwd⟩, hother⟩
    rw [hexpand] at hcheck hlogin hcheck' hlogin'
    constructor
    · intro file' salt'
      rw [hcheck, if_pos (decide_eq_true ⟨hne, rfl, hpwd⟩)]
    · rw [hlogin, if_pos (decide_eq_true ⟨hne, rfl, rfl⟩)]
    · intro hdiffer file' salt'
      rw [hcheck', if_neg]
      intro hok
      obtain ⟨-, rfl, hsame⟩ := of_decide_eq_true hok
      exact (hother hdiffer).1 ⟨rfl, hsame⟩
    · intro hdiffer
      rw [hlogin', if_neg]
      intro hok
      obtain ⟨-, rfl, hsame⟩ := of_decide_eq_true hok
      exact (hother hdiffer).2 ⟨rfl, hsame⟩

end

/-- Escapes of a percent sign and two hex digits, as a URI has them. -/
def percentDecode : Bytes → Option Bytes
  | [] => some []
  | 37 :: a :: b :: rest => do
    let hi ← Http.hexDigitFromChar a
    let lo ← Http.hexDigitFromChar b
    return UInt8.ofNat (16 * hi + lo) :: (← percentDecode rest)
  | 37 :: _ => none
  | b :: rest => return b :: (← percentDecode rest)

/-- A configuration of the values of its keys, and a key derivation that tells one password from all others. -/
def telling (adminPwd : Bytes) : Outside where
  decodeURIComponent := percentDecode
  Config := Bytes → Option Bytes
  rawValue := fun config key => config key
  setString := fun config key value k => if k = key then some value else config k
  remove := fun config key k => if k = key then none else config k
  expand := id
  pkcs5Pbkdf2Hmac := fun pwd _ _ length => List.replicate length (if pwd = cStr adminPwd then 1 else 0)
  getAllModuleDetailsJsonString := fun _ => []
  getAdminModuleDetailsJsonString := fun _ => []
  cookie := ascii "jwt="

theorem ideal_telling (salt adminPwd : Bytes) : Ideal (telling adminPwd) salt adminPwd where
  rawValue_setString := fun _ _ _ => if_pos rfl
  username_setString := by
    intro config value key hkey
    have hne : username ≠ key := by
      rintro rfl
      exact absurd hkey (by decide)
    exact if_neg hne
  username_remove := by
    intro config
    have hne : username ≠ password := by decide
    show (if username = password then none else config username) = config username
    rw [if_neg hne]
  expand := fun s _ => rfl
  length := fun pwd salt iterations length => List.length_replicate
  injective := by
    intro pwd _ h
    by_contra hne
    change List.replicate _ (if pwd = cStr adminPwd then (1 : UInt8) else 0) =
      List.replicate _ (if cStr adminPwd = cStr adminPwd then 1 else 0) at h
    rw [if_neg hne, if_pos rfl] at h
    exact absurd h (by decide)

theorem accepts_iff_plain :
    ∃ config, handleAdminMessage (telling (ascii "secret")) (fun _ => none) (fun _ => none)
      (List.replicate 128 7) [ascii "setAdminPassword", ascii "admin", ascii "secret"] =
        some (ascii "setAdminPasswordOk", config) ∧
    Accepts (telling (ascii "secret")) config (ascii "admin") (ascii "secret") (ascii "admin") (ascii "secret")
      (ascii "admin") (ascii "secre%74s") (ascii "admin") (ascii "secrets") := by
  have heu : (telling (ascii "secret")).decodeURIComponent (ascii "admin") = some (ascii "admin") := by decide
  have hep : (telling (ascii "secret")).decodeURIComponent (ascii "secret") = some (ascii "secret") := by decide
  have hset : handleAdminMessage (telling (ascii "secret")) (fun _ => none) (fun _ => none)
      (List.replicate 128 7) [ascii "setAdminPassword", ascii "admin", ascii "secret"] = some (_, _) :=
    handleAdminMessage_setAdminPassword heu hep _ _
  exact ⟨_, hset, (accepts_iff (ideal_telling _ _) List.length_replicate (by decide) heu hep heu (by decide) hset).mpr
    ⟨rfl, by decide, fun _ => by decide⟩⟩

/-- A password with a blank in it is refused by `isConfigAuthOk` after it was set. -/
theorem not_accepts : ¬ ∀ (outside : Outside) (old file config : outside.Config)
    (salt eu ep adminUser adminPwd eu' ep' usr pwd reply : Bytes), Ideal outside salt adminPwd →
      salt.length = pwdSaltLength → adminUser ≠ [] → outside.decodeURIComponent eu = some adminUser →
      outside.decodeURIComponent ep = some adminPwd → outside.decodeURIComponent eu' = some usr →
      outside.decodeURIComponent ep' = some pwd →
      handleAdminMessage outside old file salt [ascii "setAdminPassword", eu, ep] = some (reply, config) →
      Accepts outside config eu ep adminUser adminPwd eu' ep' usr pwd := by
  intro h
  have heu : (telling (ascii "my secret")).decodeURIComponent (ascii "admin") = some (ascii "admin") := by decide
  have hep : (telling (ascii "my secret")).decodeURIComponent (ascii "my%20secret") = some (ascii "my secret") := by
    decide
  have hset : handleAdminMessage (telling (ascii "my secret")) (fun _ => none) (fun _ => none)
      (List.replicate 128 7) [ascii "setAdminPassword", ascii "admin", ascii "my%20secret"] = some (_, _) :=
    handleAdminMessage_setAdminPassword heu hep _ _
  have haccepts := h _ _ _ _ _ _ _ _ _ _ _ _ _ _ (ideal_telling _ _) List.length_replicate (by decide) heu hep
    heu hep hset
  have hcheck := check_eq heu hep
    (isConfigAuthOk_setAdminPassword (ideal_telling (List.replicate 128 7) (ascii "my secret")) (by decide)
      (fun _ => none) (ascii "admin") (ascii "admin") (ascii "my%20secret")) (fun _ => none) []
  have hchecked := hcheck.symm.trans (haccepts.check _ _)
  revert hchecked
  decide

end Oxool.Modules.AdminService
