import Chiptune.Proofs.Sequencer.Fixture
import Mathlib.Algebra.GroupWithZero.Nat

/-!
# Ticks are paid for

Every frame of a playing song adds its tempo, times the ticks of a quarter note, to the account,
and every tick takes a fixed price out of it. Nothing is ever rounded, so what was added since
`play` is what the ticks have cost and what is still there, however often the tempo changed and
however long the song was paused (`Sequencer.ticks_without_drift`).

`Sequencer.Pays` is this balance for a stretch of playing. It holds of one frame, of everything
else that a host can do without leaving the place in the song, and of two stretches that follow one
another.
-/

namespace Chiptune

/-- A song that changes its tempo from 150 to 60 after one tick and to 254 after
another one. -/
def Song.changingTempo : Song where
  driver := .m4a
  sources := [.ofBytes ⟨#[0x81, 0xBB, 30, 0x81, 0xBB, 127, 0x98, 0xB1]⟩]

/-- The request leaves the song at its place. -/
def Request.KeepsPlace : Request → Prop
  | .load _ => False
  | .stop => False
  | .seek _ => False
  | _ => True

instance : DecidablePred Request.KeepsPlace
  | .load _ | .stop | .seek _ => .isFalse id
  | .play | .pause _ | .setVolume _ | .setTrackMuted _ _ | .popNotice | .drainNotices | .render _ =>
    .isTrue trivial

namespace Sequencer

variable {s s' s'' : Sequencer} {config : Config} {requests : List Request} {song : Song}

/-! ## What leaves the account alone

Ticks take their price out of the account and frames pay into it. Nothing else in a playing song
touches it. -/

/-- As long as the song goes on, each tick that is asked for passes and is paid. -/
theorem passTicks_shape {count : Nat} (playing : s.transport = .playing)
    (going : (s.passTicks count).transport = .playing) :
    (∃ (tracks : List Track) (pool : VoicePool) (notices : Notices) (tempo songLoops : Nat),
      s.passTicks count =
        { s with
          tracks, pool, notices, tempo, songLoops
          tick := s.tick + count
          account := s.account - count * s.tickPrice }) ∧
      (s.ticksInPass count).length = count := by
  induction count generalizing s with
  | zero =>
    refine ⟨⟨s.tracks, s.pool, s.notices, s.tempo, s.songLoops, ?_⟩, rfl⟩
    simp [passTicks]
  | succ count ih =>
    obtain ⟨tracks, pool, notices, transport, tempo, songLoops, htick⟩ :=
      runTick_shape true { s with account := s.account - s.tickPrice }
    rw [passTicks] at going ⊢
    rw [ticksInPass]
    rw [htick] at going ⊢
    split at going
    · next still =>
      have still : transport = .playing := still
      subst still
      obtain ⟨⟨tracks', pool', notices', tempo', songLoops', hrest⟩, hlength⟩ := ih rfl going
      rw [if_pos rfl, if_pos rfl, List.length_cons, hlength]
      refine ⟨⟨tracks', pool', notices', tempo', songLoops', ?_⟩, rfl⟩
      rw [hrest, Nat.succ_mul, Nat.add_comm (count * s.tickPrice), ← Nat.sub_sub,
        Nat.add_comm count, ← Nat.add_assoc, ← playing]
      rfl
    -- a song that has stopped does not play again by itself
    · next halted => exact absurd going halted

/-! ## The balance of a stretch of playing

What was paid in, and how many ticks were bought with it, for any stretch of requests that leave the
song at its place. -/

/-- The states from which the next `count` frames are sounded, right after their ticks. Frames in
which nothing plays are left out. -/
def playedInFrames : (count : Nat) → Sequencer → List Sequencer
  | 0, _ => []
  | count + 1, s =>
    (if s.transport = .playing then [s.passDueTicks] else []) ++ playedInFrames count s.nextFrame.2

/-- The states from which frames are sounded while the sequencer does what was asked. -/
def playedIn (s : Sequencer) : Request → List Sequencer
  | .render count => s.playedInFrames count
  | _ => []

/-- What frames that are sounded from these states add to the account. -/
def income (driver : SoundDriver) (played : List Sequencer) : Nat :=
  driver.profile.ticksPerQuarter * (played.map Sequencer.tempo).sum

theorem income_append (driver : SoundDriver) (played later : List Sequencer) :
    income driver (played ++ later) = income driver played + income driver later := by
  simp [income, Nat.mul_add]

/-- From `s` to `s'` frames are sounded from the states `played`, and `ticks` pass. What the frames
add pays for the ticks, and each frame is only sounded when no more ticks can be paid for. -/
structure Pays (s : Sequencer) (played ticks : List Sequencer) (s' : Sequencer) : Prop where
  going : s'.transport ≠ .stopped
  price_eq : s'.tickPrice = s.tickPrice
  driver_eq : s'.driver = s.driver
  tick_eq : s'.tick = s.tick + ticks.length
  /-- What the frames have paid in is what the ticks have cost and what is left. -/
  paid : ticks.length * s.tickPrice + s'.account = s.account + income s.driver played
  /-- When a frame sounds, all ticks that could be paid for have passed. -/
  sounded : ∀ {n p}, played[n]? = some p →
    p.account < s.tickPrice ∧ ∃ k, p.tick = s.tick + k ∧
      k * s.tickPrice + p.account = s.account + income s.driver (played.take n)

variable {played played' ticks ticks' : List Sequencer}

/-- Where nothing sounds and no tick passes, there is nothing to pay. -/
theorem pays_nothing (going : s'.transport ≠ .stopped) (price_eq : s'.tickPrice = s.tickPrice)
    (driver_eq : s'.driver = s.driver) (tick_eq : s'.tick = s.tick)
    (account_eq : s'.account = s.account) : Pays s [] [] s' where
  going := going
  price_eq := price_eq
  driver_eq := driver_eq
  tick_eq := tick_eq
  paid := by simp [account_eq, income]
  sounded h := by cases h

/-- The balances of two stretches make one for both. -/
theorem Pays.trans (h : Pays s played ticks s') (h' : Pays s' played' ticks' s'') :
    Pays s (played ++ played') (ticks ++ ticks') s'' where
  going := h'.going
  price_eq := h'.price_eq.trans h.price_eq
  driver_eq := h'.driver_eq.trans h.driver_eq
  tick_eq := by rw [h'.tick_eq, h.tick_eq, List.length_append, Nat.add_assoc]
  paid := by
    have first := h.paid
    have second := h'.paid
    rw [h.price_eq, h.driver_eq] at second
    rw [List.length_append, Nat.add_mul, income_append]
    omega
  sounded {n p} hp := by
    -- the frame is one of the first part, or one of the second with all of the first before it
    by_cases hn : n < played.length
    · rw [List.getElem?_append_left hn] at hp
      rw [List.take_append_of_le_length (Nat.le_of_lt hn)]
      exact h.sounded hp
    · have hn := Nat.le_of_not_lt hn
      rw [List.getElem?_append_right hn] at hp
      obtain ⟨early, k, htick, hpaid⟩ := h'.sounded hp
      rw [h.price_eq] at early hpaid
      rw [h.driver_eq] at hpaid
      refine ⟨early, ticks.length + k, by rw [htick, h.tick_eq, Nat.add_assoc], ?_⟩
      have first := h.paid
      rw [List.take_append, List.take_of_length_le hn, income_append, Nat.add_mul]
      omega

/-! ## Frames and requests pay

The balance of a frame, of many frames and of requests, put together from the smaller ones. -/

/-- A frame first passes the ticks that are due and takes their price, and then pays in. -/
theorem pays_frame (price : 0 < s.tickPrice) (playing : s.transport = .playing)
    (going : s.passDueTicks.transport = .playing) :
    Pays s [s.passDueTicks] s.ticksInFrame s.nextFrame.2 := by
  obtain ⟨⟨tracks, pool, notices, tempo, songLoops, hpass⟩, hlength⟩ :=
    passTicks_shape playing (show (s.passTicks (s.account / s.tickPrice)).transport = _ from going)
  have hpass : s.passDueTicks = _ := hpass
  have hticks : s.ticksInFrame.length = s.account / s.tickPrice := by
    rw [ticksInFrame, if_pos playing, hlength]
  obtain ⟨pool', envelopeFrames, hsound, -⟩ := soundFrame_snd s.passDueTicks
  have hnext : s.nextFrame.2 = s.passDueTicks.soundFrame.2 := by
    rw [nextFrame, if_pos playing, if_pos going]
  -- what is left after the ticks is the remainder of the division that counts them
  have hleft : s.account - s.account / s.tickPrice * s.tickPrice = s.account % s.tickPrice := by
    have := Nat.mod_add_div' s.account s.tickPrice
    omega
  have hsum : s.account / s.tickPrice * s.tickPrice + s.account % s.tickPrice = s.account :=
    Nat.div_add_mod' s.account s.tickPrice
  rw [hnext, hsound]
  refine ⟨?_, ?_, ?_, ?_, ?_, ?_⟩
  · intro stopped
    cases going.symm.trans stopped
  · rw [hpass]
    rfl
  · rw [hpass]
  · rw [hpass, hticks]
  · have htempo : income s.driver [s.passDueTicks] = s.passDueTicks.frameIncome := by
      rw [hpass]
      simp [income, frameIncome, Nat.mul_comm]
    have haccount : s.passDueTicks.account = s.account % s.tickPrice := by
      rw [hpass, ← hleft]
    show s.ticksInFrame.length * s.tickPrice +
      (s.passDueTicks.account + s.passDueTicks.frameIncome) = _
    rw [htempo, haccount, hticks]
    omega
  · intro n p hp
    cases n with
    | zero =>
      cases hp
      rw [hpass]
      dsimp only
      rw [hleft]
      refine ⟨Nat.mod_lt _ price, _, rfl, ?_⟩
      rw [hsum]
      simp [income]
    | succ n => cases hp

/-- Frames that all play balance one after the other. -/
theorem pays_frames {count : Nat} (price : 0 < s.tickPrice) (going : s.transport ≠ .stopped)
    (played : ∀ p ∈ s.playedInFrames count, p.transport = .playing) :
    Pays s (s.playedInFrames count) (s.ticksInFrames count)
      ((fun s : Sequencer => s.nextFrame.2)^[count] s) := by
  induction count generalizing s with
  | zero => exact pays_nothing going rfl rfl rfl rfl
  | succ count ih =>
    have first : Pays s (if s.transport = .playing then [s.passDueTicks] else []) s.ticksInFrame
        s.nextFrame.2 := by
      by_cases playing : s.transport = .playing
      · rw [if_pos playing]
        refine pays_frame price playing (played _ ?_)
        rw [playedInFrames, if_pos playing]
        exact List.mem_cons_self
      · rw [if_neg playing, ticksInFrame, if_neg playing, nextFrame, if_neg playing]
        exact pays_nothing going rfl rfl rfl rfl
    refine first.trans (ih (first.price_eq ▸ price) first.going fun p hp => ?_)
    exact played p (List.mem_append_right _ hp)

/-- Any request that keeps the place balances. Most of them pass no tick and sound no frame. -/
theorem pays_answer {r : Request} (price : 0 < s.tickPrice) (going : s.transport ≠ .stopped)
    (keeps : r.KeepsPlace) (played : ∀ p ∈ s.playedIn r, p.transport = .playing) :
    Pays s (s.playedIn r) (s.ticksIn r) (s.answer r) := by
  -- whatever keeps the place but a rendering passes no time
  cases r with
  | load song => cases keeps
  | stop => cases keeps
  | seek target => cases keeps
  | play =>
    show Pays s [] [] s.play
    unfold play
    split
    · exact pays_nothing going rfl rfl rfl rfl
    · exact pays_nothing (by simp) rfl rfl rfl rfl
    · next stopped => exact absurd stopped going
  | pause policy =>
    show Pays s [] [] (s.pause policy)
    unfold pause
    split
    · cases policy <;> exact pays_nothing (by simp [cutVoices]) rfl rfl rfl rfl
    · exact pays_nothing going rfl rfl rfl rfl
  | setTrackMuted track muted =>
    show Pays s [] [] (s.setTrackMuted track muted).2
    unfold setTrackMuted
    split <;> exact pays_nothing going rfl rfl rfl rfl
  | setVolume volume => exact pays_nothing going rfl rfl rfl rfl
  | popNotice => exact pays_nothing going rfl rfl rfl rfl
  | drainNotices => exact pays_nothing going rfl rfl rfl rfl
  | render count =>
    rw [answer_render]
    exact pays_frames price going played

/-- A list of such requests balances. -/
theorem pays_after (price : 0 < s.tickPrice) (going : s.transport ≠ .stopped)
    (keeps : ∀ r ∈ requests, r.KeepsPlace)
    (played : ∀ p ∈ along playedIn s requests, p.transport = .playing) :
    Pays s (along playedIn s requests) (along ticksIn s requests) (s.after requests) := by
  induction requests generalizing s with
  | nil => exact pays_nothing going rfl rfl rfl rfl
  | cons r requests ih =>
    have first := pays_answer price going (keeps r List.mem_cons_self) fun p hp =>
      played p (List.mem_append_left _ hp)
    refine first.trans (ih (first.price_eq ▸ price) first.going ?_ ?_)
    · exact fun r' hr' => keeps r' (List.mem_cons_of_mem r hr')
    · exact fun p hp => played p (List.mem_append_right _ hp)

/-! ## From the start on

The first frame of a song has a tick due at once, because its price was put on the account. With
that the balance is closed. -/

/-- A song that was stopped begins with the price of its first tick. -/
theorem account_play (stopped : s.transport = .stopped) (tracks : s.tracks ≠ []) :
    s.play.transport = .playing ∧ s.play.account = s.tickPrice ∧ s.play.tickPrice = s.tickPrice ∧
      s.play.driver = s.driver := by
  unfold play
  rw [stopped]
  dsimp only
  rw [if_neg tracks]
  split <;> exact ⟨rfl, rfl, rfl, rfl⟩

/-- Timing does not drift. Play a song that is stopped, pause and play it again as often as you
like, and let it not end. Then the frames that were sounded have paid for all ticks but the first,
up to a rest of less than a tick, and at every frame as many ticks have passed as the frames before
it can pay for. -/
theorem ticks_without_drift (config : Config) (loaded : loadedSong? requests = some song)
    (stopped : ((empty config).after requests).transport = .stopped) {run : List Request}
    (keeps : ∀ r ∈ run, r.KeepsPlace) :
    let s := ((empty config).after requests).play
    let played := along playedIn s run
    let ticks := (along ticksIn s run).length
    let price := max 1 config.sampleRate * 60
    let quarter := song.driver.profile.ticksPerQuarter
    (∀ p ∈ played, p.transport = .playing) →
    (s.after run).tick = s.tick + ticks ∧
    ticks * price + (s.after run).account = price + quarter * (played.map Sequencer.tempo).sum ∧
    ∀ n p, played[n]? = some p → p.account < price ∧
      p.tick = s.tick + (1 + quarter * ((played.take n).map Sequencer.tempo).sum / price) := by
  intro s played ticks price quarter going
  have hfixture := fixture_after config loaded
  have htracks := tracks_ne_nil hfixture (isPlayable_of_loadedSong? loaded)
  obtain ⟨hplaying, haccount, hprice, hdriver⟩ := account_play stopped htracks
  have hconfig := config_after config requests
  have hprice : s.tickPrice = price := by
    rw [hprice, tickPrice, hconfig]
    rfl
  have haccount : s.account = price := haccount.trans (by rw [tickPrice, hconfig]; rfl)
  have hdriver : s.driver = song.driver := hdriver.trans (congrArg Fixture.driver hfixture)
  have positive : 0 < price := by omega
  have pays : Pays s played (along ticksIn s run) (s.after run) := by
    refine pays_after (hprice ▸ positive) ?_ keeps going
    intro halted
    cases hplaying.symm.trans halted
  refine ⟨pays.tick_eq, ?_, ?_⟩
  · have paid := pays.paid
    rw [hprice, haccount, hdriver] at paid
    exact paid
  · intro n p hp
    obtain ⟨early, k, htick, paid⟩ := pays.sounded hp
    rw [hprice] at early
    rw [hprice, haccount, hdriver] at paid
    refine ⟨early, ?_⟩
    -- `k` ticks have been paid and another one could not be
    have hk : k = (price + quarter * ((played.take n).map Sequencer.tempo).sum) / price := by
      rw [show price + quarter * _ = k * price + p.account from paid.symm, Nat.mul_comm,
        Nat.mul_add_div positive, Nat.div_eq_of_lt early, Nat.add_zero]
    rw [htick, hk, Nat.add_div_left _ positive, Nat.add_comm 1]

theorem ticks_without_drift_changingTempo :
    let s := ((empty { sampleRate := 40 }).after [.load .changingTempo]).play
    let run : List Request :=
      [.render 2, .pause .sustain, .render 5, .setTrackMuted 0 true, .play, .render 3]
    let played := along playedIn s run
    played.map Sequencer.tempo = [150, 60, 254, 254, 254] ∧
      (along ticksIn s run).length * 2400 + (s.after run).account = 2400 + 24 * 972 := by
  intro s run played
  have tempi : played.map Sequencer.tempo = [150, 60, 254, 254, 254] := by decide +kernel
  have going : ∀ p ∈ played, p.transport = .playing := by decide +kernel
  have paid := (ticks_without_drift { sampleRate := 40 }
    (show loadedSong? [.load .changingTempo] = some .changingTempo from rfl) (by decide +kernel)
    (show ∀ r ∈ run, r.KeepsPlace by decide) going).2.1
  rw [show (along playedIn _ run).map Sequencer.tempo = _ from tempi] at paid
  exact ⟨tempi, paid⟩

end Sequencer
end Chiptune
