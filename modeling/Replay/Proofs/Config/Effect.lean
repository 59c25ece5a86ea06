import Replay.Proofs.Config.Precedence
import Replay.Proofs.Player.Ticks

/-!
What the values of a valid configuration come to in the parts that begin with them. All of them are
used as they are, with one exception: a speed below the slowest one is valid, and raised to it.
Main statement: `valid_values_take_effect`.
-/

namespace Replay

namespace Speed

variable {m : Magnitude}

theorem clamp_of_le (h : slowest ≤ m) : (clamp (.finite false m)).value = .finite false m := by
  rw [clamp, dif_pos h]
  rfl

theorem clamp_of_lt (h : m < slowest) :
    (clamp (.finite false m)).value = .finite false slowest := by
  have hslow : ¬ slowest ≤ m := Nat.not_le.mpr h
  rw [clamp, dif_neg hslow]
  rfl

end Speed

theorem Binary64.eq_finite_of_positive {x : Binary64} (hfinite : x.isFinite = true)
    (hpositive : x.isPositive = true) : ∃ m, x = .finite false m ∧ 0 < m.quanta := by
  cases x with
  | nan => cases hfinite
  | infinite negative => cases hfinite
  | finite negative m =>
    cases negative with
    | true => simp [isPositive] at hpositive
    | false => exact ⟨m, rfl, by simpa [isPositive] using hpositive⟩

namespace Config

/-- A player and a hub that begin with the values of a configuration. -/
structure InEffect (c : Config) (p : Player) (h : Hub) : Prop where
  /-- The speed is the one that is configured, or the slowest one if that is faster. -/
  speed : ∃ m, c.playback.initialSpeed = .finite false m ∧
    (slowest ≤ m → p.speed.value = c.playback.initialSpeed) ∧
    (m < slowest → p.speed.value = .finite false slowest)
  /-- The interval is a second divided by the rate. -/
  interval : p.interval.toNat = 1000000000 / c.playback.notifyHertz.toNat
  interval_pos : c.playback.notifyHertz.toNat ≤ 1000000000 → 0 < p.interval.toNat
  /-- The feed has the room that a feed has to which so many places are given. Where no queue can be
  made, for 2^63 places or more or for want of memory, the program ends before it serves anyone. -/
  room : h.feed.room = c.server.queueCapacity.toNat.nextPowerOfTwo

/-- The settings of the loop are those of a configuration, and no sleep is too long or none. -/
structure Paced (c : Config) (settings : Pacing.Settings) : Prop where
  idle : settings.idle = c.playback.idleMillis.toNat * 1000000
  idle_pos : 0 < settings.idle
  maxSleep : settings.maxSleep = c.playback.maxSleepMillis.toNat * 1000000
  maxSleep_pos : 0 < settings.maxSleep
  maxSleep_le : settings.maxSleep ≤ 1000000000

variable {c : Config}

theorem Valid.pos_queueCapacity (hc : c.Valid) : 0 < c.server.queueCapacity.toNat :=
  Nat.pos_of_ne_zero fun hzero => hc.queueCapacity (UInt64.toNat.inj hzero)

theorem Valid.pos_notifyHertz (hc : c.Valid) : 0 < c.playback.notifyHertz.toNat :=
  Nat.pos_of_ne_zero fun hzero => hc.notifyRate (UInt32.toNat.inj hzero)

theorem Valid.paced (hc : c.Valid) : Paced c c.playback.pacing where
  idle := rfl
  idle_pos := by
    have hpos : 0 < c.playback.idleMillis.toNat :=
      Nat.pos_of_ne_zero fun hzero => hc.idle (UInt64.toNat.inj hzero)
    exact Nat.mul_pos hpos (by decide)
  maxSleep := rfl
  maxSleep_pos := by
    have hpos : 0 < c.playback.maxSleepMillis.toNat :=
      Nat.pos_of_ne_zero fun hzero => hc.maxSleep (UInt64.toNat.inj hzero)
    exact Nat.mul_pos hpos (by decide)
  maxSleep_le := by
    have hle : c.playback.maxSleepMillis.toNat ≤ 1000 := hc.maxSleep_le
    exact Nat.mul_le_mul_right 1000000 hle

/-- A feed of any capacity but none has the room of that capacity. -/
theorem room_start {capacity : Nat} (h : 0 < capacity) (info : ServerInfo) :
    (Hub.start info capacity).feed.room = capacity.nextPowerOfTwo := by
  change (max capacity 1).nextPowerOfTwo = _
  rw [Nat.max_eq_left h]

/-- What is in effect depends on the speed and the interval of the player, and on the room. -/
theorem inEffect_of_eq (hc : c.Valid) {p : Player} {h : Hub}
    (hspeed : p.speed = Speed.clamp c.playback.initialSpeed)
    (hinterval : p.interval = c.playback.notifyInterval)
    (hroom : h.feed.room = c.server.queueCapacity.toNat.nextPowerOfTwo) : InEffect c p h := by
  have htick : p.interval.toNat = 1000000000 / c.playback.notifyHertz.toNat := by
    rw [hinterval, Playback.toNat_notifyInterval hc.notifyRate]
  refine ⟨?_, htick, fun hle => ?_, hroom⟩
  · obtain ⟨m, hm, -⟩ := Binary64.eq_finite_of_positive hc.speed_finite hc.speed_positive
    rw [hm] at hspeed ⊢
    refine ⟨m, rfl, fun hle => ?_, fun hlt => ?_⟩
    · rw [hspeed, Speed.clamp_of_le hle]
    · rw [hspeed, Speed.clamp_of_lt hlt]
  · rw [htick]
    exact Nat.div_pos hle hc.pos_notifyHertz

/-- What a prepared playback is made of. -/
theorem prepare_eq_ok {env : Environment} {w : World} {o : CommandLine.Options} {session : String}
    {s : Startup} (h : Startup.prepare env w o session = .ok s) : ∃ p,
      settle env (o.config.map fun path => (path, w.disk.read? path)) o.flags = .ok s.config ∧
      Player.openFile w.disk o.file
        ⟨s.config.playback.initialSpeed, s.config.playback.notifyInterval⟩ = .ok p ∧
      s.player = if s.config.playback.autoplay then p.play w.now else p := by
  unfold Startup.prepare at h
  simp only [bind_eq_ok_iff, mapError_eq_ok_iff] at h
  obtain ⟨c, hsettle, p, hopen, hs⟩ := h
  cases hs
  exact ⟨p, hsettle, hopen, rfl⟩

/-- What is accepted is what runs. A player that is opened with a valid configuration begins at the
speed that is configured, if that is not below the slowest one, and else at the slowest one; its
interval is a second divided by the rate that is configured, and is not zero for a rate of 10^9 or
less; the feed is given the capacity that is configured; and the sleeps of the loop are the
configured ones, not zero, the longest of them a second at most. It is the same for the playback
that the program prepares. -/
theorem valid_values_take_effect (hc : c.validate = .ok ()) :
    (∀ (d : Disk) (path : String) (p : Player) (info : ServerInfo),
      Player.openFile d path ⟨c.playback.initialSpeed, c.playback.notifyInterval⟩ = .ok p →
      InEffect c p (.start info c.server.queueCapacity.toNat)) ∧
    max c.server.queueCapacity.toNat 1 = c.server.queueCapacity.toNat ∧
    max c.playback.notifyHertz.toNat 1 = c.playback.notifyHertz.toNat ∧
    Paced c c.playback.pacing ∧
    ∀ (env : Environment) (w : World) (o : CommandLine.Options) (session : String) (s : Startup),
      Startup.prepare env w o session = .ok s → s.config = c → InEffect c s.player s.hub := by
  have hvalid : c.Valid := (validate_eq_ok_iff c).mp hc
  refine ⟨?_, Nat.max_eq_left hvalid.pos_queueCapacity, Nat.max_eq_left hvalid.pos_notifyHertz,
    hvalid.paced, ?_⟩
  · intro d path p info hopen
    obtain ⟨_, _, _, _, _, _, _, _, _, rfl⟩ := Player.openFile_opened hopen
    exact inEffect_of_eq hvalid rfl rfl (room_start hvalid.pos_queueCapacity info)
  · rintro env w o session s hprepare rfl
    obtain ⟨p, -, hopen, hplayer⟩ := prepare_eq_ok hprepare
    obtain ⟨_, _, _, _, _, _, _, _, _, rfl⟩ := Player.openFile_opened hopen
    have hroom : s.hub.feed.room = s.config.server.queueCapacity.toNat.nextPowerOfTwo :=
      room_start hvalid.pos_queueCapacity s.info
    rw [hplayer]
    split
    · exact inEffect_of_eq hvalid rfl rfl hroom
    · exact inEffect_of_eq hvalid rfl rfl hroom

def thirdsInfo : ServerInfo := ⟨"thirds", Startup.capabilities, 333333333, 1333333332, "session"⟩

/-- Where the rate is three, the interval is a third of a second, and all else is the default. -/
theorem thirds_take_effect :
    Player.threePerSecond.validate = .ok () ∧
    InEffect Player.threePerSecond Player.thirdsPlayer (.start thirdsInfo 1024) ∧
    Paced Player.threePerSecond ⟨10000000, 1000000000⟩ := by
  obtain ⟨hopened, -, -, hpaced, -⟩ := valid_values_take_effect Player.threePerSecond_valid
  exact ⟨Player.threePerSecond_valid, hopened _ _ _ thirdsInfo Player.thirds_opens, hpaced⟩

/-- Half a percent of real time, and more times in a second than it has nanoseconds. -/
def slowAndFrequent : Config :=
  { default with playback :=
    { Playback.default with
      initialSpeed := Binary64.ofNat 1 / Binary64.ofNat 200
      notifyHertz := 2000000000 } }

/-- A valid speed can be raised, and a valid rate can leave an interval of zero. -/
theorem slow_start_raised :
    slowAndFrequent.validate = .ok () ∧ slowAndFrequent.playback.notifyInterval = 0 ∧
    ∃ p, Player.openFile Recording.sampleDisk "a"
        ⟨slowAndFrequent.playback.initialSpeed, slowAndFrequent.playback.notifyInterval⟩ = .ok p ∧
      p.speed.value ≠ slowAndFrequent.playback.initialSpeed := by
  refine ⟨Recording.eq_ok_of_toOption (by decide +kernel), by decide +kernel,
    { Player.samplePlayer with
      interval := 0
      speed := Speed.clamp slowAndFrequent.playback.initialSpeed },
    Recording.eq_ok_of_toOption (by decide +kernel), by decide +kernel⟩

end Config

end Replay
