import Replay.Startup

/-!
Which layer of a configuration decides. A flag goes before the environment, the environment before
the file, and the file before the defaults; only the host and the port can be given more than once.
Every layer has to be valid with those below it, so a later one mends nothing. Main statement:
`layers_settle`.
-/

namespace Replay

namespace Text

/-- Whole numbers in decimal digits, before which a plus may stand. -/
def Spells (cs : List Char) (n : Nat) : Prop :=
  number? 10 cs = some n ∨ ∃ digits, cs = '+' :: digits ∧ number? 10 digits = some n

theorem le_of_foldlM_digit? {cs : List Char} {n m : Nat}
    (h : cs.foldlM (fun n c => (digit? 10 c).map (n * 10 + ·)) n = some m) : n ≤ m := by
  induction cs generalizing n with
  | nil => exact Nat.le_of_eq (Option.some.inj h)
  | cons c cs ih =>
    rw [List.foldlM_cons] at h
    obtain ⟨next, hnext, hrest⟩ := Option.bind_eq_some_iff.mp h
    obtain ⟨d, -, rfl⟩ := Option.map_eq_some_iff.mp hnext
    have hle := ih hrest
    omega

/-- With a bound, digits are read as without it if the number is below the bound. -/
theorem numberBelowGo_eq_ok_iff {bound n m : Nat} (hn : n < bound) (cs : List Char) :
    numberBelowGo bound n cs = .ok m ↔
      cs.foldlM (fun n c => (digit? 10 c).map (n * 10 + ·)) n = some m ∧ m < bound := by
  induction cs generalizing n with
  | nil =>
    simp only [numberBelowGo, List.foldlM_nil, Except.ok.injEq, Option.pure_def, Option.some.injEq]
    constructor
    · rintro rfl
      exact ⟨rfl, hn⟩
    · rintro ⟨rfl, -⟩
      rfl
  | cons c cs ih =>
    unfold numberBelowGo
    rw [List.foldlM_cons]
    cases hd : digit? 10 c with
    | none => simp
    | some d =>
      simp only [Option.map_some, Option.bind_eq_bind, Option.bind_some]
      split
      · exact ih ‹_›
      · rename_i hlarge
        constructor
        · nofun
        · rintro ⟨hrest, hm⟩
          have hle := le_of_foldlM_digit? hrest
          omega

theorem number?_cons (base : Nat) (c : Char) (cs : List Char) : number? base (c :: cs) =
    (c :: cs).foldlM (fun n c => (digit? base c).map (n * base + ·)) 0 := if_neg nofun

theorem number?_plus (cs : List Char) : number? 10 ('+' :: cs) = none := by
  have hplus : digit? 10 '+' = none := by decide
  rw [number?_cons, List.foldlM_cons, hplus]
  rfl

theorem numberBelow_eq_ok_iff {bound : Nat} (hb : 0 < bound) (cs : List Char) (n : Nat) :
    numberBelow bound cs = .ok n ↔ Spells cs n ∧ n < bound := by
  unfold numberBelow
  split
  · simp [Spells, number?]
  · rename_i c cs
    simp only [numberBelowGo_eq_ok_iff hb, ← number?_cons]
    simp [Spells, number?_plus]
  · rename_i cs hempty hplus
    obtain ⟨c, cs, rfl⟩ := List.exists_cons_of_ne_nil hempty
    rw [numberBelowGo_eq_ok_iff hb, ← number?_cons]
    refine and_congr_left fun _ => (or_iff_left ?_).symm
    rintro ⟨digits, heq, hdigits⟩
    rw [heq] at hplus
    cases digits with
    | nil => simp [number?] at hdigits
    | cons d ds => exact hplus d ds rfl

end Text

namespace Config

variable {env : Environment} {file : Option (String × Option Bytes)} {c : Config}

/-- The configuration of the file, with the variables put in, or the defaults without a file. There
is none if the file cannot be read or says no configuration. -/
def base? (env : Environment) : Option (String × Option Bytes) → Option Config
  | none => some default
  | some (_, content) =>
    (content.bind Utf8.decode?).bind fun text => ofYaml? (substitute env.get? text)

/-- The port that the environment gives, if it gives one. -/
def PortGiven (env : Environment) (port : Option UInt16) : Prop :=
  match env.get? "PLAYBACK_PORT" with
  | none => port = none
  | some text => ∃ n, port = some n ∧ Text.Spells text.toList n.toNat

/-- A configuration with another host and another port, where they are given. -/
def under (host : Option String) (port : Option UInt16) (c : Config) : Config :=
  { c with server :=
    { c.server with host := host.getD c.server.host, port := port.getD c.server.port } }

theorem under_under (host host' : Option String) (port port' : Option UInt16) (c : Config) :
    (c.under host port).under host' port' = c.under (host'.or host) (port'.or port) := by
  cases host' <;> cases port' <;> rfl

/-- The defaults pass their own checks. -/
theorem default_valid : default.Valid where
  host := ⟨'1', by decide, by decide⟩
  port := by decide
  queueCapacity := by decide
  speed_finite := by decide +kernel
  speed_positive := by decide +kernel
  idle := by decide
  maxSleep := by decide
  maxSleep_le := by decide
  notifyRate := by decide
  level := by decide +kernel
  format := by decide +kernel

theorem checked_eq_ok_iff {ε : Type} {wrap : Invalid → ε} {c d : Config} :
    checked wrap c = .ok d ↔ c.Valid ∧ d = c := by
  rw [← validate_eq_ok_iff]
  unfold checked
  split
  · rename_i h
    simp [h, eq_comm]
  · rename_i h
    simp [h]

section Outcome

variable {ε ε' α β : Type} {x : Except ε α}

theorem bind_eq_ok_iff {f : α → Except ε β} {b : β} :
    x >>= f = .ok b ↔ ∃ a, x = .ok a ∧ f a = .ok b := by
  cases x with
  | error e => simp [bind, Except.bind]
  | ok a => simp [bind, Except.bind]

theorem map_eq_ok_iff {f : α → β} {b : β} : x.map f = .ok b ↔ ∃ a, x = .ok a ∧ f a = b := by
  cases x with
  | error e => simp [Except.map]
  | ok a => simp [Except.map]

theorem mapError_eq_ok_iff {f : ε → ε'} {a : α} : x.mapError f = .ok a ↔ x = .ok a := by
  cases x with
  | error e => exact ⟨nofun, nofun⟩
  | ok a => exact ⟨fun h => congrArg _ (Except.ok.inj h), fun h => congrArg _ (Except.ok.inj h)⟩

end Outcome

theorem readPort_eq_ok_iff (text : String) (n : UInt16) :
    readPort text = .ok n ↔ Text.Spells text.toList n.toNat := by
  have hbound : 0 < UInt16.size := by decide
  have hnumber := Text.numberBelow_eq_ok_iff hbound text.toList
  have hport : Text.numberBelow UInt16.size text.toList = .ok n.toNat ↔
      Text.Spells text.toList n.toNat := by
    rw [hnumber]
    exact and_iff_left n.toNat_lt_size
  rw [← hport, readPort, map_eq_ok_iff]
  constructor
  · rintro ⟨m, hread, rfl⟩
    rwa [UInt16.toNat_ofNat_of_lt' ((hnumber m).mp hread).2]
  · intro hread
    exact ⟨n.toNat, hread, UInt16.ofNat_toNat⟩

theorem environmentPort_eq_ok_iff (port : Option UInt16) :
    environmentPort env = .ok port ↔ PortGiven env port := by
  unfold environmentPort PortGiven
  cases env.get? "PLAYBACK_PORT" with
  | none => simp [eq_comm]
  | some text =>
    simp only [mapError_eq_ok_iff, map_eq_ok_iff, readPort_eq_ok_iff]
    simp only [and_comm, eq_comm]

/-- A file is loaded if it says a configuration that is valid. -/
theorem ofFile_eq_ok_iff {path : String} {content : Option Bytes} :
    ofFile env path content = .ok c ↔ base? env (some (path, content)) = some c ∧ c.Valid := by
  unfold ofFile base?
  dsimp only
  cases content.bind Utf8.decode? with
  | none => simp
  | some text =>
    simp only [ofText, Option.bind_some]
    cases ofYaml? (substitute env.get? text) with
    | none => simp
    | some d =>
      rw [checked_eq_ok_iff, Option.some.injEq]
      constructor
      · rintro ⟨hvalid, rfl⟩
        exact ⟨rfl, hvalid⟩
      · rintro ⟨rfl, hvalid⟩
        exact ⟨hvalid, rfl⟩

theorem load_eq_ok_iff : load env file = .ok c ↔ ∃ base, base? env file = some base ∧ base.Valid ∧
    ∃ port, PortGiven env port ∧ (base.under (env.get? "PLAYBACK_HOST") port).Valid ∧
    c = base.under (env.get? "PLAYBACK_HOST") port := by
  unfold load
  cases file with
  | none =>
    simp only [bind_eq_ok_iff, environmentPort_eq_ok_iff, checked_eq_ok_iff, Except.ok.injEq,
      base?, Option.some.injEq, exists_eq_left', default_valid, true_and]
    rfl
  | some file =>
    simp only [bind_eq_ok_iff, mapError_eq_ok_iff, ofFile_eq_ok_iff, environmentPort_eq_ok_iff,
      checked_eq_ok_iff, and_assoc]
    rfl

theorem settle_eq_ok_iff {flags : Flags} : settle env file flags = .ok c ↔
    ∃ base, base? env file = some base ∧ base.Valid ∧
    ∃ port, PortGiven env port ∧ (base.under (env.get? "PLAYBACK_HOST") port).Valid ∧
    c.Valid ∧ c = base.under (flags.host.or (env.get? "PLAYBACK_HOST")) (flags.port.or port) := by
  unfold settle
  simp only [bind_eq_ok_iff, load_eq_ok_iff, checked_eq_ok_iff]
  constructor
  · rintro ⟨_, ⟨base, hbase, hvalid, port, hport, hover, rfl⟩, hc, rfl⟩
    exact ⟨base, hbase, hvalid, port, hport, hover, hc, under_under ..⟩
  · rintro ⟨base, hbase, hvalid, port, hport, hover, hc, rfl⟩
    rw [← under_under] at hc ⊢
    exact ⟨_, ⟨base, hbase, hvalid, port, hport, hover, rfl⟩, hc, rfl⟩

theorem portGiven_unique {port port' : Option UInt16} (h : PortGiven env port)
    (h' : PortGiven env port') : port = port' := by
  rw [← environmentPort_eq_ok_iff] at h h'
  exact Except.ok.inj (h.symm.trans h')

/-- The environment gives a port, or none, unless its variable spells no port. -/
theorem portGiven_or (env : Environment) : (∃ port, PortGiven env port) ∨
    ∃ text, env.get? "PLAYBACK_PORT" = some text ∧
      ∀ n : UInt16, ¬ Text.Spells text.toList n.toNat := by
  unfold PortGiven
  cases env.get? "PLAYBACK_PORT" with
  | none => exact .inl ⟨none, rfl⟩
  | some text =>
    by_cases hport : ∃ n : UInt16, Text.Spells text.toList n.toNat
    · obtain ⟨n, hn⟩ := hport
      exact .inl ⟨some n, n, rfl, hn⟩
    · exact .inr ⟨text, rfl, not_exists.mp hport⟩

theorem not_portGiven {text : String} (htext : env.get? "PLAYBACK_PORT" = some text)
    (hno : ∀ n : UInt16, ¬ Text.Spells text.toList n.toNat) (port : Option UInt16) :
    ¬ PortGiven env port := by
  unfold PortGiven
  rw [htext]
  rintro ⟨n, -, hn⟩
  exact hno n hn

theorem settle_eq_error_iff {flags : Flags} : (∃ e, settle env file flags = .error e) ↔
    base? env file = none ∨ ∃ base, base? env file = some base ∧
      (¬ base.Valid ∨
        (∃ text, env.get? "PLAYBACK_PORT" = some text ∧
          ∀ n : UInt16, ¬ Text.Spells text.toList n.toNat) ∨
        ∃ port, PortGiven env port ∧
          (¬ (base.under (env.get? "PLAYBACK_HOST") port).Valid ∨
            ¬ (base.under (flags.host.or (env.get? "PLAYBACK_HOST"))
              (flags.port.or port)).Valid)) := by
  constructor
  · rintro ⟨e, herror⟩
    have hnone : ∀ c, settle env file flags ≠ .ok c := by simp [herror]
    cases hbase : base? env file with
    | none => exact .inl rfl
    | some base =>
      refine .inr ⟨base, rfl, ?_⟩
      by_cases hvalid : base.Valid
      · refine .inr ?_
        rcases portGiven_or env with ⟨port, hport⟩ | hno
        · refine .inr ⟨port, hport, ?_⟩
          -- were both layers valid, the configuration would be settled
          refine Classical.byContradiction fun hboth => ?_
          obtain ⟨hover, hflags⟩ := not_or.mp hboth
          exact hnone _ (settle_eq_ok_iff.mpr ⟨base, hbase, hvalid, port, hport,
            Classical.not_not.mp hover, Classical.not_not.mp hflags, rfl⟩)
        · exact .inl hno
      · exact .inl hvalid
  · intro hfault
    cases hresult : settle env file flags with
    | error e => exact ⟨e, rfl⟩
    | ok c =>
      obtain ⟨base, hbase, hvalid, port, hport, hover, hc, rfl⟩ := settle_eq_ok_iff.mp hresult
      rcases hfault with hnone | ⟨base', hbase', hfault⟩
      · simp [hnone] at hbase
      · obtain rfl : base = base' := Option.some.inj (hbase.symm.trans hbase')
        rcases hfault with hinvalid | ⟨text, htext, hno⟩ | ⟨port', hport', hinvalid⟩
        · exact absurd hvalid hinvalid
        · exact absurd hport (not_portGiven htext hno port)
        · obtain rfl := portGiven_unique hport hport'
          rcases hinvalid with hinvalid | hinvalid
          · exact absurd hover hinvalid
          · exact absurd hc hinvalid

/-- The program goes on with the configuration that is settled, if it can open the recording. -/
theorem config_prepare (env : Environment) (w : World) (o : CommandLine.Options)
    (session : String) : (Startup.prepare env w o session).map (·.config) =
      (settle env (o.config.map fun path => (path, w.disk.read? path)) o.flags).mapError
        .config >>= fun c =>
      ((Player.openFile w.disk o.file
        ⟨c.playback.initialSpeed, c.playback.notifyInterval⟩).mapError
          (.recording o.file)).map fun _ => c := by
  unfold Startup.prepare
  dsimp only
  cases settle env (o.config.map fun path => (path, w.disk.read? path)) o.flags with
  | error e => rfl
  | ok c =>
    change Except.map _ (Except.mapError _ (Player.openFile w.disk o.file
      ⟨c.playback.initialSpeed, c.playback.notifyInterval⟩) >>= _) = Except.map _ _
    cases Player.openFile w.disk o.file
      ⟨c.playback.initialSpeed, c.playback.notifyInterval⟩ with
    | error e => rfl
    | ok player => rfl

/-- Whatever the file, the environment and the flags are: the configuration that is settled has its
host and its port from the first layer that gives one, and is that of the file, or the default, in
everything else; it is valid, as are those of the layers below. There is none exactly if the file
says no configuration, or a layer is not valid with those below it, or the port of the environment
is not one; and what is settled is what the program goes on with, if it can open the recording. -/
theorem layers_settle (env : Environment) (file : Option (String × Option Bytes)) (flags : Flags) :
    (∀ c, settle env file flags = .ok c ↔
      ∃ base, base? env file = some base ∧ base.Valid ∧
      ∃ port, PortGiven env port ∧ (base.under (env.get? "PLAYBACK_HOST") port).Valid ∧
      c.Valid ∧ c = { base with server := { base.server with
        host := (flags.host.or (env.get? "PLAYBACK_HOST")).getD base.server.host
        port := (flags.port.or port).getD base.server.port } }) ∧
    ((∃ e, settle env file flags = .error e) ↔
      base? env file = none ∨ ∃ base, base? env file = some base ∧
        (¬ base.Valid ∨
          (∃ text, env.get? "PLAYBACK_PORT" = some text ∧
            ∀ n : UInt16, ¬ Text.Spells text.toList n.toNat) ∨
          ∃ port, PortGiven env port ∧
            (¬ (base.under (env.get? "PLAYBACK_HOST") port).Valid ∨
              ¬ (base.under (flags.host.or (env.get? "PLAYBACK_HOST"))
                (flags.port.or port)).Valid))) ∧
    ∀ (w : World) (o : CommandLine.Options) (session : String),
      (Startup.prepare env w o session).map (·.config) =
        (settle env (o.config.map fun path => (path, w.disk.read? path)) o.flags).mapError
          .config >>= fun c =>
        ((Player.openFile w.disk o.file
          ⟨c.playback.initialSpeed, c.playback.notifyInterval⟩).mapError
            (.recording o.file)).map fun _ => c := by
  exact ⟨fun _ => settle_eq_ok_iff, settle_eq_error_iff, config_prepare env⟩

example :
    (settle ⟨[("PLAYBACK_HOST", "::"), ("PLAYBACK_PORT", "+80")]⟩ none ⟨none, some 9000⟩).toOption =
      some ⟨⟨"::", 9000, none, 1024⟩, .default, .default⟩ := by decide +kernel

/-- A flag does not mend what the environment spoils. -/
example : settle ⟨[("PLAYBACK_PORT", "0")]⟩ none ⟨none, some 9000⟩ = .error (.invalid .zeroPort) :=
  by rfl

end Config

end Replay
