import PeerCall.Signal.Url
import PeerCall.Signal.Identity

/-!
# Signal.Startup — the command lines of the client

`ParseAppConfig` reads the command line from the left, a flag and its value at a time, and ends at the first argument
that it does not take.

* `parseAppConfig_exact`: **the command lines that it accepts, what each of them comes to, and every error**;
* `startup_registers`: **the server registers the client under the name of its command line**.
-/

namespace PeerCall.Signal

open PeerCall.Lib

/-! ### What a command line says -/

/-- The flags and their values, as arguments. -/
def written (settings : List (String × String)) : List String := settings.flatMap fun p => [p.1, p.2]

/-- A flag with a value that it takes. -/
def Proper (p : String × String) : Prop :=
  p.1 ∈ valueFlags ∧ (p.1 = "--signal-port" → stoi p.2 ≠ none) ∧
    (p.1 = "--media-source" → p.2 = "camera" ∨ p.2 = "file")

instance (p : String × String) : Decidable (Proper p) := inferInstanceAs (Decidable (_ ∧ _ ∧ _))

/-- The last value of a flag. -/
def lastValue (flag : String) (settings : List (String × String)) : Option String :=
  (settings.reverse.find? fun p => p.1 = flag).map Prod.snd

/-- The last value of a flag, which is empty unless it is set. -/
def value (flag : String) (settings : List (String × String)) : String := (lastValue flag settings).getD ""

def port (settings : List (String × String)) : ℤ := ((lastValue "--signal-port" settings).bind stoi).getD 0

/-- There is a server to connect to. -/
def Server (settings : List (String × String)) : Prop := value "--signal-host" settings ≠ "" ∧ 0 < port settings

/-- A file is named where there has to be one. -/
def Source (settings : List (String × String)) : Prop :=
  value "--media-source" settings = "file" → value "--media-file" settings ≠ ""

instance (settings : List (String × String)) : Decidable (Server settings) := inferInstanceAs (Decidable (_ ∧ _))

instance (settings : List (String × String)) : Decidable (Source settings) := inferInstanceAs (Decidable (_ → _))

/-- What a command line comes to. -/
def meaning (settings : List (String × String)) (randomDevice : Fin 8 → UInt32) : AppConfig where
  signalHost := value "--signal-host" settings
  signalPort := port settings
  username :=
    if value "--username" settings = "" then generateRandomUsername randomDevice else value "--username" settings
  signalUrl := "ws://" ++ value "--signal-host" settings ++ ":" ++ toString (port settings) ++ "/ws/webrtc"
  localVideoSource :=
    { kind := if value "--media-file" settings = "" then .camera else .file
      filePath := value "--media-file" settings }

/-- The argument where the reading ends, with what is printed. -/
inductive Fault (programName : String) : List String → String → Prop
  | help {argument : String} (rest : List String) (h : argument = "--help" ∨ argument = "-h") :
    Fault programName (argument :: rest) (printUsage programName)
  | unknown {argument : String} (rest : List String) (hflag : argument ∉ valueFlags)
    (hhelp : ¬ (argument = "--help" ∨ argument = "-h")) :
    Fault programName (argument :: rest) ("Unknown argument: " ++ argument ++ "\n")
  | missing {flag : String} (h : flag ∈ valueFlags) :
    Fault programName [flag] ("Missing value for " ++ flag ++ "\n")
  | port {value : String} (rest : List String) (h : stoi value = none) :
    Fault programName ("--signal-port" :: value :: rest) ("Invalid value for --signal-port: " ++ value ++ "\n")
  | source {value : String} (rest : List String) (hcamera : value ≠ "camera") (hfile : value ≠ "file") :
    Fault programName ("--media-source" :: value :: rest) ("Invalid value for --media-source: " ++ value ++ "\n")

/-! ### The loop over the arguments -/

/-- A flag is set to a value that it takes. -/
def AppConfig.assign (config : AppConfig) (p : String × String) : AppConfig :=
  (config.set p.1 p.2).toOption.getD config

variable {config : AppConfig} {p : String × String} {settings : List (String × String)}

theorem mem_valueFlags {flag : String} : flag ∈ valueFlags ↔ flag = "--signal-host" ∨ flag = "--signal-port" ∨
    flag = "--username" ∨ flag = "--media-source" ∨ flag = "--media-file" := by
  simp [valueFlags]

theorem set_of_proper (h : Proper p) : config.set p.1 p.2 = .ok (config.assign p) := by
  obtain ⟨flag, text⟩ := p
  obtain ⟨hflag, hport, hsource⟩ := h
  unfold AppConfig.assign
  suffices hok : ∃ config', config.set flag text = .ok config' by
    obtain ⟨config', hok⟩ := hok
    rw [hok]
    rfl
  rcases mem_valueFlags.mp hflag with rfl | rfl | rfl | rfl | rfl
  · exact ⟨_, rfl⟩
  · obtain ⟨n, hn⟩ := Option.ne_none_iff_exists'.mp (hport rfl)
    exact ⟨{ config with signalPort := n }, by simp [AppConfig.set, hn]⟩
  · exact ⟨_, rfl⟩
  · rcases hsource rfl with rfl | rfl
    · exact ⟨_, rfl⟩
    · exact ⟨_, rfl⟩
  · exact ⟨_, rfl⟩

/-- What is not proper is printed. -/
theorem set_error (programName : String) {flag text : String} (rest : List String) (hflag : flag ∈ valueFlags)
    (h : ¬ Proper (flag, text)) :
    ∃ e, Fault programName (flag :: text :: rest) e ∧ ∀ config : AppConfig, config.set flag text = .error e := by
  have hbad : (flag = "--signal-port" ∧ stoi text = none) ∨
      flag = "--media-source" ∧ ¬ (text = "camera" ∨ text = "file") := by
    unfold Proper at h
    tauto
  rcases hbad with ⟨rfl, hport⟩ | ⟨rfl, hsource⟩
  · exact ⟨_, .port rest hport, fun config => by simp [AppConfig.set, hport]⟩
  · rw [not_or] at hsource
    exact ⟨_, .source rest hsource.1 hsource.2, fun config => by simp [AppConfig.set, hsource.1, hsource.2]⟩

/-- The loop has read what is proper, and is before the rest. -/
theorem parseArguments_written (programName : String) (rest : List String) :
    ∀ (settings : List (String × String)) (config : AppConfig), (∀ p ∈ settings, Proper p) →
      parseArguments programName config (written settings ++ rest) =
        parseArguments programName (settings.foldl AppConfig.assign config) rest
  | [], _, _ => rfl
  | p :: settings, config, h => by
    have hp : Proper p := h p List.mem_cons_self
    have ih := parseArguments_written programName rest settings (config.assign p)
      fun q hq => h q (List.mem_cons_of_mem _ hq)
    show parseArguments programName config (p.1 :: p.2 :: (written settings ++ rest)) = _
    rw [parseArguments, if_pos hp.1]
    simp only [set_of_proper hp]
    exact ih

theorem parseArguments_fault {programName text : String} {rest : List String} (h : Fault programName rest text)
    (config : AppConfig) : parseArguments programName config rest = .error text := by
  cases h with
  | help rest hhelp =>
    have hflag : ∀ argument, argument = "--help" ∨ argument = "-h" → argument ∉ valueFlags := by
      rintro _ (rfl | rfl)
      · decide
      · decide
    rw [parseArguments.eq_def]
    dsimp only
    rw [if_neg (hflag _ hhelp), if_pos hhelp]
  | unknown rest hflag hhelp =>
    rw [parseArguments.eq_def]
    dsimp only
    rw [if_neg hflag, if_neg hhelp]
  | missing hflag => rw [parseArguments, if_pos hflag]
  | port rest hport =>
    rw [parseArguments, if_pos (by decide)]
    simp [AppConfig.set, hport]
  | source rest hcamera hfile =>
    rw [parseArguments, if_pos (by decide)]
    simp [AppConfig.set, hcamera, hfile]

/-- **Every command line** is proper up to its end, or up to the first fault. -/
theorem exists_written (programName : String) : ∀ args : List String, ∃ settings rest,
    args = written settings ++ rest ∧ (∀ p ∈ settings, Proper p) ∧ (rest = [] ∨ ∃ text, Fault programName rest text)
  | [] => ⟨[], [], rfl, by simp, .inl rfl⟩
  | argument :: rest => by
    by_cases hflag : argument ∈ valueFlags
    · cases rest with
      | nil => exact ⟨[], [argument], rfl, by simp, .inr ⟨_, .missing hflag⟩⟩
      | cons text rest =>
        by_cases hp : Proper (argument, text)
        · obtain ⟨settings, rest', rfl, hproper, hrest⟩ := exists_written programName rest
          refine ⟨(argument, text) :: settings, rest', rfl, ?_, hrest⟩
          intro q hq
          rcases List.mem_cons.mp hq with rfl | hq
          · exact hp
          · exact hproper q hq
        · obtain ⟨e, hfault, -⟩ := set_error programName rest hflag hp
          exact ⟨[], _, rfl, by simp, .inr ⟨e, hfault⟩⟩
    · by_cases hhelp : argument = "--help" ∨ argument = "-h"
      · exact ⟨[], _, rfl, by simp, .inr ⟨_, .help rest hhelp⟩⟩
      · exact ⟨[], _, rfl, by simp, .inr ⟨_, .unknown rest hflag hhelp⟩⟩

/-! ### The last value counts -/

theorem lastValue_concat (flag : String) :
    lastValue flag (settings ++ [p]) = if p.1 = flag then some p.2 else lastValue flag settings := by
  unfold lastValue
  rw [List.reverse_append, List.reverse_singleton, List.singleton_append, List.find?_cons]
  by_cases h : p.1 = flag
  · simp [h]
  · simp [h]

/-- What the loop has stored: the last value of every flag. -/
def stored (settings : List (String × String)) : AppConfig where
  signalHost := value "--signal-host" settings
  signalPort := port settings
  username := value "--username" settings
  localVideoSource :=
    { kind := if lastValue "--media-source" settings = some "file" then .file else .camera
      filePath := value "--media-file" settings }

/-- **The loop keeps the last value of every flag.** -/
theorem foldl_assign (h : ∀ p ∈ settings, Proper p) : settings.foldl AppConfig.assign {} = stored settings := by
  induction settings using List.reverseRecOn with
  | nil => rfl
  | append_singleton settings p ih =>
    have hp : Proper p := h p (by simp)
    rw [List.foldl_concat, ih fun q hq => h q (by simp [hq])]
    have hset : (stored settings).set p.1 p.2 = .ok ((stored settings).assign p) := set_of_proper hp
    obtain ⟨flag, text⟩ := p
    refine Except.ok.inj (hset.symm.trans ?_)
    obtain ⟨hflag, hport, hsource⟩ := hp
    rcases mem_valueFlags.mp hflag with rfl | rfl | rfl | rfl | rfl
    · simp [AppConfig.set, stored, value, port, lastValue_concat]
    · obtain ⟨n, hn⟩ := Option.ne_none_iff_exists'.mp (hport rfl)
      simp [AppConfig.set, stored, value, port, lastValue_concat, hn]
    · simp [AppConfig.set, stored, value, port, lastValue_concat]
    · rcases hsource rfl with rfl | rfl
      · simp [AppConfig.set, stored, value, port, lastValue_concat]
      · simp [AppConfig.set, stored, value, port, lastValue_concat]
    · simp [AppConfig.set, stored, value, port, lastValue_concat]

/-- What `ParseAppConfig` makes of a command line that is proper up to its end. -/
theorem parseAppConfig_written (programName : String) (randomDevice : Fin 8 → UInt32)
    (h : ∀ p ∈ settings, Proper p) :
    parseAppConfig (programName :: written settings) randomDevice =
      if ¬ Server settings then .error ""
      else if Source settings then .ok (meaning settings randomDevice)
      else .error "--media-file is required when --media-source file is used\n" := by
  have hargs : parseArguments programName {} (written settings) = .ok (stored settings) := by
    have hrun := parseArguments_written programName [] settings {} h
    rw [List.append_nil, foldl_assign h] at hrun
    exact hrun
  unfold parseAppConfig
  simp only [List.headD_cons, List.tail_cons, hargs]
  have hserver : (stored settings).signalHost = "" ∨ (stored settings).signalPort ≤ 0 ↔ ¬ Server settings := by
    unfold Server
    rw [not_and_or, not_not, not_lt]
    rfl
  by_cases hno : ¬ Server settings
  · rw [if_pos (hserver.mpr hno), if_pos hno]
  rw [if_neg fun hn => hno (hserver.mp hn), if_neg hno]
  have hkind : value "--media-source" settings = "file" ↔ lastValue "--media-source" settings = some "file" := by
    unfold value
    cases lastValue "--media-source" settings <;> simp
  by_cases hpath : value "--media-file" settings = ""
  · have hstored : (stored settings).localVideoSource.filePath = "" := hpath
    by_cases hsource : Source settings
    · have hcamera : lastValue "--media-source" settings ≠ some "file" := fun he => hsource (hkind.mpr he) hpath
      simp [stored, meaning, hpath, hcamera, hsource]
    · have hfile : lastValue "--media-source" settings = some "file" := by
        unfold Source at hsource
        tauto
      simp [stored, hpath, hfile, hsource]
  · have hsource : Source settings := fun _ => hpath
    simp [stored, meaning, hpath, hsource]
    rfl

/-- **`ParseAppConfig` accepts exactly the command lines that say what they have to**: flags with values that they
take, by whose last values there is a server, and a file where the source is one; each comes to what these values mean.
Every other command line is an error, and the first fault decides which. -/
theorem parseAppConfig_exact (programName : String) (args : List String) (randomDevice : Fin 8 → UInt32) :
    (∀ config, parseAppConfig (programName :: args) randomDevice = .ok config ↔
      ∃ settings, args = written settings ∧ (∀ p ∈ settings, Proper p) ∧ Server settings ∧ Source settings ∧
        config = meaning settings randomDevice) ∧
    ∀ text, parseAppConfig (programName :: args) randomDevice = .error text ↔
      (∃ settings rest, args = written settings ++ rest ∧ (∀ p ∈ settings, Proper p) ∧
        Fault programName rest text) ∨
      ∃ settings, args = written settings ∧ (∀ p ∈ settings, Proper p) ∧
        (¬ Server settings ∧ text = "" ∨ Server settings ∧ ¬ Source settings ∧
          text = "--media-file is required when --media-source file is used\n") := by
  have hfaulty : ∀ {settings rest text}, (∀ p ∈ settings, Proper p) → Fault programName rest text →
      parseAppConfig (programName :: (written settings ++ rest)) randomDevice = .error text := by
    intro settings rest text h hfault
    unfold parseAppConfig
    simp only [List.headD_cons, List.tail_cons, parseArguments_written programName rest settings {} h,
      parseArguments_fault hfault]
  constructor
  · intro config
    constructor
    · intro hok
      obtain ⟨settings, rest, rfl, h, rfl | ⟨text, hfault⟩⟩ := exists_written programName args
      · rw [List.append_nil] at hok ⊢
        rw [parseAppConfig_written programName randomDevice h] at hok
        split_ifs at hok with hserver hsource
        exact ⟨settings, rfl, h, hserver, hsource, (Except.ok.inj hok).symm⟩
      · rw [hfaulty h hfault] at hok
        cases hok
    · rintro ⟨settings, rfl, h, hserver, hsource, rfl⟩
      rw [parseAppConfig_written programName randomDevice h, if_neg (not_not.mpr hserver), if_pos hsource]
  · intro text
    constructor
    · intro herror
      obtain ⟨settings, rest, rfl, h, rfl | ⟨text', hfault⟩⟩ := exists_written programName args
      · rw [List.append_nil] at herror ⊢
        rw [parseAppConfig_written programName randomDevice h] at herror
        refine .inr ⟨settings, rfl, h, ?_⟩
        split_ifs at herror with hserver hsource
        · exact .inr ⟨hserver, hsource, (Except.error.inj herror).symm⟩
        · exact .inl ⟨hserver, (Except.error.inj herror).symm⟩
      · rw [hfaulty h hfault] at herror
        obtain rfl := Except.error.inj herror
        exact .inl ⟨settings, rest, rfl, h, hfault⟩
    · rintro (⟨settings, rest, rfl, h, hfault⟩ | ⟨settings, rfl, h, ⟨hserver, rfl⟩ | ⟨hserver, hsource, rfl⟩⟩)
      · exact hfaulty h hfault
      · rw [parseAppConfig_written programName randomDevice h, if_pos hserver]
      · rw [parseAppConfig_written programName randomDevice h, if_neg (not_not.mpr hserver), if_neg hsource]

/-- A file that is named counts more than the camera that is asked for, and the port ends where its digits do. -/
example :
    (parseAppConfig ["client", "--signal-host", "a", "--signal-port", "80x", "--media-file", "v.mp4", "--signal-host",
      "b", "--media-source", "camera"] fun _ => 0).toOption.map
        (fun config => (config.signalUrl, config.localVideoSource.kind)) =
      some ("ws://b:80/ws/webrtc", .file) := by
  decide +kernel

/-! ### The name that the server takes -/

/-- A character that stands for itself in a URL. -/
def unreserved (c : Char) : Bool := c.isAlphanum || c ∈ ['-', '.', '_', '~']

theorem unreserved_generated (randomDevice : Fin 8 → UInt32) :
    ∀ c ∈ (generateRandomUsername randomDevice).toList, unreserved c = true := by
  intro c hc
  unfold generateRandomUsername at hc
  rw [String.toList_append, List.mem_append] at hc
  have halphabet : ∀ d ∈ kAlphabet, unreserved d = true := List.all_eq_true.mp (by decide +kernel)
  rcases hc with hc | hc
  · have huser : ∀ d ∈ "user-".toList, unreserved d = true := List.all_eq_true.mp (by decide +kernel)
    exact huser c hc
  · rw [String.toList_ofList] at hc
    obtain ⟨i, rfl⟩ := List.mem_ofFn.mp hc
    have hlt : (randomDevice i).toNat % 16 < kAlphabet.length := Nat.mod_lt _ (by decide)
    rw [List.getD_eq_getElem _ _ hlt]
    exact halphabet _ (List.getElem_mem hlt)

/-- **The server registers the client under the name of its command line**, or under the generated one where there is
none: the configuration names the server that was asked for, its URL comes apart into that server's host and port, and
the name of the handshake is the uid that the server takes, if it consists of unreserved characters. -/
theorem startup_registers {settings : List (String × String)} (programName : String) (randomDevice : Fin 8 → UInt32)
    (h : ∀ p ∈ settings, Proper p)
    (hserver : Server settings) (hsource : Source settings) (hslash : '/' ∉ (value "--signal-host" settings).toList)
    (hname : ∀ c ∈ (value "--username" settings).toList, unreserved c = true) :
    ∃ config p, parseAppConfig (programName :: written settings) randomDevice = .ok config ∧
      parseUrl config.signalUrl = .ok p ∧ p.host = value "--signal-host" settings ∧
      p.port = toString (port settings) ∧
      config.username =
        (if value "--username" settings = "" then generateRandomUsername randomDevice
          else value "--username" settings) ∧
      handleWebRTCConnection (handshakeTarget p.target config.username) = some config.username := by
  have hconfig : parseAppConfig (programName :: written settings) randomDevice =
      .ok (meaning settings randomDevice) := by
    rw [parseAppConfig_written programName randomDevice h, if_neg (not_not.mpr hserver), if_pos hsource]
  have hvalid := parseAppConfig_valid hconfig
  refine ⟨_, _, hconfig, (hvalid.spells hslash).parseUrl, rfl, rfl, rfl, ?_⟩
  have hplain : ∀ c ∈ (meaning settings randomDevice).username.toList, unreserved c = true := by
    unfold meaning
    dsimp only
    split_ifs
    · exact unreserved_generated randomDevice
    · exact hname
  rw [handleWebRTCConnection_eq_iff hvalid.username, first_handshakeTarget, if_neg (by decide)]
  have hfirst : Query.first (rawQuery "/ws/webrtc") "uid".toList = none := by decide +kernel
  rw [hfirst, Option.none_or, Query.first_keyed_iff uid_plain]
  have hreserved : ∀ d, unreserved d = false → d ∉ (meaning settings randomDevice).username.toList := by
    intro d hd hmem
    rw [hplain d hmem] at hd
    cases hd
  exact ⟨hreserved _ rfl, hreserved _ rfl, hreserved _ rfl, hreserved _ rfl⟩

/-- The client that is started with a server only. -/
def serverOnly : List (String × String) := [("--signal-host", "localhost"), ("--signal-port", "8081")]

theorem serverOnly_registers : ∃ config p,
    parseAppConfig ("client" :: written serverOnly) (fun _ => 10) = .ok config ∧
      parseUrl config.signalUrl = .ok p ∧ p.host = "localhost" ∧ p.port = "8081" ∧
      handleWebRTCConnection (handshakeTarget p.target config.username) = some config.username := by
  obtain ⟨config, p, hconfig, hurl, hhost, hport, -, huid⟩ := @startup_registers serverOnly "client" (fun _ => 10)
    (by decide +kernel) (by decide +kernel) (by decide +kernel) (by decide +kernel)
    (List.all_eq_true.mp (by decide +kernel))
  exact ⟨config, p, hconfig, hurl, hhost.trans (by decide +kernel), hport.trans (by decide +kernel), huid⟩

end PeerCall.Signal
