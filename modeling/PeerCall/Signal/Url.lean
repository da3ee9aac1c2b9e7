import PeerCall.Engine.Media
import PeerCall.Lib.Query
import PeerCall.Signal.Client

/-!
# Signal.Url — the address of the signaling server

`ParseUrl` cuts a URL at its first slash, and what stands before it at its last colon.  `ParseAppConfig` builds the
URL from the command line.

* `parseUrl_exact`: **`ParseUrl` accepts exactly `ws://host:port` and a tail**, and takes what `ParseAppConfig`
  makes apart again.
-/

namespace PeerCall.Signal

open PeerCall.Lib.Query (takeWhile_ne dropWhile_ne notMem_takeWhile head_dropWhile eq_append_of_mem)

/-- `url` is spelled `ws://host:port` and `tail`. -/
structure Spells (url host port tail : String) : Prop where
  spelled : url = "ws://" ++ host ++ ":" ++ port ++ tail
  hostNe : host ≠ ""
  hostSlash : '/' ∉ host.toList
  portNe : port ≠ ""
  portSlash : '/' ∉ port.toList
  portColon : ':' ∉ port.toList
  tailSlash : tail = "" ∨ tail.toList.head? = some '/'

/-! ### The grammar -/

section Grammar

variable {url host port tail : String}

theorem Spells.toList (h : Spells url host port tail) :
    url.toList = 'w' :: 's' :: ':' :: '/' :: '/' :: (host.toList ++ ':' :: port.toList ++ tail.toList) := by
  rw [h.spelled]
  simp [String.toList_append]

/-- What is spelled so is accepted. -/
theorem Spells.parseUrl (h : Spells url host port tail) :
    parseUrl url = .ok ⟨host, port, if tail = "" then "/" else tail⟩ := by
  have hauthority : '/' ∉ host.toList ++ ':' :: port.toList := by
    simp [h.hostSlash, h.portSlash]
  have htail : tail.toList = [] ∨ tail.toList.head? = some '/' := by simpa using h.tailSlash
  have hreverse : (host.toList ++ ':' :: port.toList).reverse = port.toList.reverse ++ ':' :: host.toList.reverse := by
    simp
  have hcolon : ':' ∉ port.toList.reverse := by simpa using h.portColon
  have hhost : ':' :: host.toList.reverse = [] ∨ (':' :: host.toList.reverse).head? = some ':' := .inr rfl
  unfold Signal.parseUrl
  simp only [h.toList, takeWhile_ne hauthority htail, dropWhile_ne hauthority htail, hreverse,
    takeWhile_ne hcolon hhost, dropWhile_ne hcolon hhost]
  rw [if_neg (by simp), if_neg (by simp [h.hostNe, h.portNe])]
  rcases h.tailSlash with rfl | htail
  · simp [h.hostSlash, h.portSlash]
  · obtain ⟨rest, hrest⟩ := List.head?_eq_some_iff.mp htail
    have hne : tail ≠ "" := by
      rintro rfl
      simp at hrest
    rw [if_neg hne, if_pos (by simp [hrest])]
    simp

/-- What is accepted is spelled so. -/
theorem spells_of_parseUrl {r : ParsedUrl} (h : parseUrl url = .ok r) : ∃ tail, Spells url r.host r.port tail := by
  unfold parseUrl at h
  split at h
  · rename_i remaining hurl
    dsimp only at h
    set authority := remaining.takeWhile (· ≠ '/') with hauthority
    set tail := remaining.dropWhile (· ≠ '/') with htail
    set port := (authority.reverse.takeWhile (· ≠ ':')).reverse with hport
    set host := (authority.reverse.dropWhile (· ≠ ':')).tail.reverse with hhost
    have hcut : remaining = authority ++ tail := (List.takeWhile_append_dropWhile).symm
    have hslash : '/' ∉ authority := notMem_takeWhile '/' remaining
    by_cases hcolon : ':' ∈ authority
    · have hparts : authority = host ++ ':' :: port := eq_append_of_mem hcolon
      rw [if_neg (not_not.mpr hcolon)] at h
      by_cases hempty : host = [] ∨ port = []
      · rw [if_pos hempty] at h
        cases h
      · rw [if_neg hempty] at h
        obtain rfl := Except.ok.inj h
        rw [not_or] at hempty
        rw [hparts, List.mem_append, List.mem_cons, not_or, not_or] at hslash
        refine ⟨String.ofList tail, ?_, ?_, ?_, ?_, ?_, ?_, ?_⟩
        · apply String.toList_inj.mp
          rw [hurl, hcut, hparts]
          simp
        · simpa using hempty.1
        · simpa using hslash.1
        · simpa using hempty.2
        · simpa using hslash.2.2
        · simpa [hport] using notMem_takeWhile ':' authority.reverse
        · have hstop := head_dropWhile '/' remaining
          rw [← htail] at hstop
          simpa using hstop
    · rw [if_pos hcolon] at h
      cases h
  · cases h

/-- There is only one way to spell a URL. -/
theorem Spells.unique {host' port' tail' : String} (h : Spells url host port tail) (h' : Spells url host' port' tail') :
    host' = host ∧ port' = port ∧ tail' = tail := by
  obtain ⟨rfl, rfl, -⟩ := ParsedUrl.mk.inj (Except.ok.inj (h.parseUrl.symm.trans h'.parseUrl))
  refine ⟨rfl, rfl, ?_⟩
  have hurl := h.toList.symm.trans h'.toList
  exact (String.toList_inj.mp (by simpa using hurl)).symm

end Grammar

/-! ### The command line -/

structure AppConfig where
  signalHost : String := ""
  signalPort : ℤ := 0
  username : String := ""
  signalUrl : String := ""
  localVideoSource : WebRTC.LocalVideoSourceConfig := {}
  deriving DecidableEq, Repr

/-- `std::isspace`. -/
def isspace (c : Char) : Bool := c ∈ [' ', '\t', '\n', '\x0b', '\x0c', '\r']

/-- `std::stoi`: what follows the number is ignored; `none` where it throws. -/
def stoi (value : String) : Option ℤ :=
  let text := value.toList.dropWhile isspace
  let (sign, text) : ℤ × List Char :=
    match text with
    | '-' :: rest => (-1, rest)
    | '+' :: rest => (1, rest)
    | _ => (1, text)
  let digits := text.takeWhile Char.isDigit
  if digits = [] then none
  else
    let n := sign * Nat.ofDigitChars 10 digits 0
    if -2 ^ 31 ≤ n ∧ n < 2 ^ 31 then some n else none

/-- `PrintUsage`. -/
def printUsage (programName : String) : String :=
  "Usage: " ++ programName ++ " --signal-host <host> --signal-port <port> [--username <name>] " ++
    "[--media-source camera|file] [--media-file <path>]\n"

def kAlphabet : List Char := "0123456789abcdef".toList

/-- `GenerateRandomUsername`; `randomDevice` are the eight values drawn. -/
def generateRandomUsername (randomDevice : Fin 8 → UInt32) : String :=
  "user-" ++ String.ofList (List.ofFn fun i => kAlphabet.getD ((randomDevice i).toNat % 16) '0')

/-- The arguments that `require_value` is called for. -/
def valueFlags : List String := ["--signal-host", "--signal-port", "--username", "--media-source", "--media-file"]

/-- What one of `valueFlags` does with its value; the error is what is printed. -/
def AppConfig.set (config : AppConfig) (argument value : String) : Except String AppConfig :=
  if argument = "--signal-host" then .ok { config with signalHost := value }
  else if argument = "--signal-port" then
    match stoi value with
    | some port => .ok { config with signalPort := port }
    | none => .error ("Invalid value for --signal-port: " ++ value ++ "\n")
  else if argument = "--username" then .ok { config with username := value }
  else if argument = "--media-source" then
    if value = "camera" then
      .ok { config with localVideoSource := { config.localVideoSource with kind := .camera } }
    else if value = "file" then
      .ok { config with localVideoSource := { config.localVideoSource with kind := .file } }
    else .error ("Invalid value for --media-source: " ++ value ++ "\n")
  else .ok { config with localVideoSource := { config.localVideoSource with filePath := value } }

/-- The loop over the arguments. -/
def parseArguments (programName : String) (config : AppConfig) : List String → Except String AppConfig
  | [] => .ok config
  | argument :: rest =>
    if argument ∈ valueFlags then
      match rest with
      | [] => .error ("Missing value for " ++ argument ++ "\n")
      | value :: rest =>
        match config.set argument value with
        | .ok config => parseArguments programName config rest
        | .error text => .error text
    else if argument = "--help" ∨ argument = "-h" then .error (printUsage programName)
    else .error ("Unknown argument: " ++ argument ++ "\n")

/-- `ParseAppConfig`; where it returns nothing, the error is what it has printed. -/
def parseAppConfig (argv : List String) (randomDevice : Fin 8 → UInt32) : Except String AppConfig :=
  match parseArguments (argv.headD "") {} argv.tail with
  | .error text => .error text
  | .ok config =>
    if config.signalHost = "" ∨ config.signalPort ≤ 0 then .error ""
    else
      let source : WebRTC.LocalVideoSourceConfig :=
        if config.localVideoSource.filePath ≠ "" then { config.localVideoSource with kind := .file }
        else config.localVideoSource
      if source.kind = .file ∧ source.filePath = "" then
        .error "--media-file is required when --media-source file is used\n"
      else
        .ok
          { config with
            username := if config.username = "" then generateRandomUsername randomDevice else config.username
            signalUrl := "ws://" ++ config.signalHost ++ ":" ++ toString config.signalPort ++ "/ws/webrtc"
            localVideoSource := source }

/-- What an accepted configuration looks like. -/
structure AppConfig.Valid (config : AppConfig) : Prop where
  signalHost : config.signalHost ≠ ""
  signalPort : 0 < config.signalPort
  username : config.username ≠ ""
  signalUrl : config.signalUrl = "ws://" ++ config.signalHost ++ ":" ++ toString config.signalPort ++ "/ws/webrtc"
  localVideoSource : config.localVideoSource.kind = .file ↔ config.localVideoSource.filePath ≠ ""

theorem generateRandomUsername_ne (randomDevice : Fin 8 → UInt32) : generateRandomUsername randomDevice ≠ "" := by
  intro h
  have hlist := congrArg String.toList h
  simp [generateRandomUsername] at hlist

/-- **Every accepted configuration is valid.** -/
theorem parseAppConfig_valid {argv : List String} {randomDevice : Fin 8 → UInt32} {config : AppConfig}
    (h : parseAppConfig argv randomDevice = .ok config) : config.Valid := by
  unfold parseAppConfig at h
  cases hargs : parseArguments (argv.headD "") {} argv.tail with
  | error text =>
    rw [hargs] at h
    cases h
  | ok parsed =>
    rw [hargs] at h
    dsimp only at h
    by_cases hempty : parsed.signalHost = "" ∨ parsed.signalPort ≤ 0
    · rw [if_pos hempty] at h
      cases h
    rw [if_neg hempty] at h
    rw [not_or, not_le] at hempty
    have hname : (if parsed.username = "" then generateRandomUsername randomDevice else parsed.username) ≠ "" := by
      split_ifs with hname
      · exact generateRandomUsername_ne randomDevice
      · exact hname
    by_cases hpath : parsed.localVideoSource.filePath = ""
    · -- no file: the source must not be one
      rw [if_neg (not_not.mpr hpath)] at h
      by_cases hkind : parsed.localVideoSource.kind = .file
      · rw [if_pos ⟨hkind, hpath⟩] at h
        cases h
      · rw [if_neg fun hfile => hkind hfile.1] at h
        obtain rfl := Except.ok.inj h
        exact ⟨hempty.1, hempty.2, hname, rfl, by simp [hkind, hpath]⟩
    · rw [if_pos hpath, if_neg fun hfile => hpath hfile.2] at h
      obtain rfl := Except.ok.inj h
      exact ⟨hempty.1, hempty.2, hname, rfl, by simp [hpath]⟩

theorem toList_toString {n : ℤ} (h : 0 < n) : (toString n).toList = Nat.toDigits 10 n.toNat := by
  obtain ⟨m, rfl⟩ := Int.eq_ofNat_of_zero_le h.le
  show (Nat.repr m).toList = _
  rw [Nat.repr, String.toList_ofList, Int.toNat_natCast]

/-- The URL of a configuration is spelled by its host and its port. -/
theorem AppConfig.Valid.spells {config : AppConfig} (h : config.Valid) (hslash : '/' ∉ config.signalHost.toList) :
    Spells config.signalUrl config.signalHost (toString config.signalPort) "/ws/webrtc" := by
  have hdigits := toList_toString h.signalPort
  have hne : ∀ c : Char, c.isDigit = false → c ∉ (toString config.signalPort).toList := by
    intro c hc hmem
    rw [hdigits] at hmem
    have hdigit := Nat.isDigit_of_mem_toDigits (by decide) (by decide) hmem
    rw [hc] at hdigit
    exact absurd hdigit (by decide)
  refine ⟨h.signalUrl, h.signalHost, hslash, fun hport => ?_, hne '/' (by decide), hne ':' (by decide), by decide⟩
  rw [hport] at hdigits
  exact Nat.toDigits_ne_nil hdigits.symm

/-- **`ParseUrl` accepts exactly its grammar**: a URL that is spelled `ws://host:port` and a tail is spelled so in
one way, which the result gives back; every other URL is an error; and what `ParseAppConfig` has built from a host
without a slash comes apart as it was put together. -/
theorem parseUrl_exact (url : String) :
    ((∃ r, parseUrl url = .ok r) ↔ ∃ host port tail, Spells url host port tail) ∧
      (∀ host port tail, Spells url host port tail →
        parseUrl url = .ok ⟨host, port, if tail = "" then "/" else tail⟩ ∧
          ∀ host' port' tail', Spells url host' port' tail' → host' = host ∧ port' = port ∧ tail' = tail) ∧
      ((¬ ∃ host port tail, Spells url host port tail) → ∃ text, parseUrl url = .error text) ∧
      ∀ argv randomDevice config, parseAppConfig argv randomDevice = .ok config →
        '/' ∉ config.signalHost.toList → config.signalUrl = url →
          parseUrl url = .ok ⟨config.signalHost, toString config.signalPort, "/ws/webrtc"⟩ := by
  have haccepted : (∃ r, parseUrl url = .ok r) ↔ ∃ host port tail, Spells url host port tail := by
    constructor
    · rintro ⟨r, hr⟩
      obtain ⟨tail, h⟩ := spells_of_parseUrl hr
      exact ⟨r.host, r.port, tail, h⟩
    · rintro ⟨host, port, tail, h⟩
      exact ⟨_, h.parseUrl⟩
  refine ⟨haccepted, fun host port tail h => ⟨h.parseUrl, fun _ _ _ h' => h.unique h'⟩, fun h => ?_, ?_⟩
  · cases hr : parseUrl url with
    | error text => exact ⟨text, rfl⟩
    | ok r => exact absurd (haccepted.mp ⟨r, hr⟩) h
  · rintro argv randomDevice config hconfig hslash rfl
    exact ((parseAppConfig_valid hconfig).spells hslash).parseUrl

/-- The host may hold colons. -/
example :
    (parseAppConfig ["client", "--signal-host", "::1", "--signal-port", "8081"] fun _ => 10).toOption.map
      (fun config => (config.username, parseUrl config.signalUrl)) =
        some ("user-aaaaaaaa", .ok ⟨"::1", "8081", "/ws/webrtc"⟩) := by
  decide +kernel

example : stoi " +8081/tcp" = some 8081 ∧ stoi "2147483648" = none := by decide +kernel

end PeerCall.Signal
