import SymmetricCipher.Proofs.Inversion
import SymmetricCipher.Proofs.Stepping

/-!
# Modes as bijections

What comes out of one direction of a mode goes back through the opposite one, whatever the block
cipher is and however the two sides cut their calls. The block modes need the two functions of the
cipher to undo each other. The feedback and keystream modes never run the second function at all,
and so ask nothing of it. `runMode_opposite` is this for a single run, and calls are a single run
over all their data.
-/

namespace SymmetricCipher

variable {cipher : BlockCipher} {direction : Direction}

namespace Duplex

variable {d d' e : Duplex} {x out : Bytes} {inputs : List Bytes}

/-- Calls in one direction take the inputs and answer with the outputs. -/
def Passes (d : Duplex) (cipher : BlockCipher) (direction : Direction) (inputs outs : List Bytes)
    (d' : Duplex) : Prop :=
  mapState (fun m x => m.apply direction x) (Machine.chained cipher d) inputs =
    (outs.map .ok, .chained cipher d')

/-- Calls on aligned data are a single call. -/
lemma passes_flatten (hm : d.mode ≠ .stream) (hd : d.Fits cipher.blockSize) (direction : Direction)
    (hinputs : ∀ x ∈ inputs, d.mode.Aligned cipher.blockSize x) :
    ∃ outs d', d.Passes cipher direction inputs outs d' ∧
      d.apply cipher direction inputs.flatten = .ok (outs.flatten, d') ∧
      outs.map List.length = inputs.map List.length := by
  have hkind : ∀ c, Machine.Kind.chained cipher d.mode ≠ .chained c .stream := by
    intro c h
    exact hm (Machine.Kind.chained.inj h).2
  obtain ⟨outs, m', hruns, hflat, hlens⟩ :=
    (Machine.Kind.Runs.chained hd).apply_flatten hkind direction hinputs
  obtain ⟨d', happly, rfl⟩ := Machine.apply_chained_iff.1 hflat
  exact ⟨outs, d', hruns, happly, hlens⟩

/-- A call is undone in the opposite direction, from the state that it was made in. -/
lemma apply_opposite (hi : d.mode.isBlockMode = true → cipher.Invertible)
    (hd : d.Fits cipher.blockSize) (hmode : e.mode = d.mode)
    (hstate : e.state direction.opposite = d.state direction)
    (h : d.apply cipher direction x = .ok (out, d')) :
    ∃ e', e.apply cipher direction.opposite out = .ok (x, e') ∧
      e'.state direction.opposite = d'.state direction := by
  obtain ⟨ha, s, hrun, rfl⟩ := apply_eq_ok_iff.1 h
  have hout := ha.of_length_eq (length_runMode (hd direction) hrun).1
  have hback := runMode_opposite hi (hd direction) hrun
  rw [← hmode] at hout
  rw [← hmode, ← hstate] at hback
  refine ⟨e.setState direction.opposite s, apply_eq_ok_iff.2 ⟨hout, s, hback, rfl⟩, ?_⟩
  rw [state_setState_self, state_setState_self]

end Duplex

/-- A partial block at the end is left as it is by the block modes, and changes nothing else. -/
lemma runMode_partial {mode : Mode} (hb : mode.isBlockMode = true) (direction : Direction)
    {s : ChainState} (hs : s.register.length = cipher.blockSize) {data rest : Bytes}
    (hdata : data.length % cipher.blockSize = 0) (hrest : rest.length < cipher.blockSize) :
    ∃ out s', runMode mode cipher direction s data = .ok (out, s') ∧ out.length = data.length ∧
      runMode mode cipher direction s (data ++ rest) = .ok (out ++ rest, s') := by
  have hm : mode ≠ .stream := by
    rintro rfl
    cases hb
  obtain ⟨out, s', hrun, -, hlen, -⟩ := runMode_spec hm (.refl cipher) direction hs data
  refine ⟨out, s', hrun, hlen, runMode_append (fun _ => hdata) hrun ?_⟩
  have hblocks {step : ChainState → Bytes → Bytes × ChainState} :
      mapBlocks step cipher.blockSize s' rest = (rest, s') := by
    obtain ⟨hwhole, hpartial⟩ := Bytes.partialBlock_of_lt hrest
    rw [mapBlocks, hwhole, hpartial]
    rfl
  cases mode with
  | ecb => exact congrArg Except.ok hblocks
  | cbc => cases direction <;> exact congrArg Except.ok hblocks
  | _ => cases hb

/-- Every mode of every block cipher is undone in the opposite direction, at the start of the stream
of the same driver or of another one. In ECB and CBC this takes a cipher that is invertible, and
there a partial block outside of a driver passes through as it is. -/
theorem modes_bijective (cipher : BlockCipher) {iv : Bytes} (hiv : iv.length = cipher.blockSize) :
    (∀ mode : Mode, mode ≠ .stream → (mode.isBlockMode = true → cipher.Invertible) →
      ∀ (direction : Direction) (inputs : List Bytes),
        (∀ x ∈ inputs, mode.Aligned cipher.blockSize x) →
        ∃ outs d, (Duplex.start mode iv).Passes cipher direction inputs outs d ∧
          outs.map List.length = inputs.map List.length ∧
          ∀ pieces : List Bytes, (∀ x ∈ pieces, mode.Aligned cipher.blockSize x) →
            pieces.flatten = outs.flatten → ∀ e, e = Duplex.start mode iv ∨ e = d →
            ∃ backs e', e.Passes cipher direction.opposite pieces backs e' ∧
              backs.flatten = inputs.flatten ∧ backs.map List.length = pieces.map List.length ∧
              e'.state direction.opposite = d.state direction) ∧
    ∀ mode : Mode, mode.isBlockMode = true → ∀ (direction : Direction) (s : ChainState)
      (data rest : Bytes), s.register.length = cipher.blockSize →
      data.length % cipher.blockSize = 0 → rest.length < cipher.blockSize →
      ∃ out s', runMode mode cipher direction s data = .ok (out, s') ∧
        out.length = data.length ∧
        runMode mode cipher direction s (data ++ rest) = .ok (out ++ rest, s') := by
  constructor
  · intro mode hm hi direction inputs hinputs
    have hstart : (Duplex.start mode iv).Fits cipher.blockSize := hiv ▸ Duplex.fits_start mode iv
    obtain ⟨outs, d, hpasses, happly, hlens⟩ :=
      Duplex.passes_flatten hm hstart direction hinputs
    refine ⟨outs, d, hpasses, hlens, ?_⟩
    intro pieces hpieces hflat e he
    -- the opposite direction is at its start on either driver
    obtain ⟨hmode, hstate, hfits⟩ : e.mode = mode ∧
        e.state direction.opposite = (Duplex.start mode iv).state direction ∧
        e.Fits cipher.blockSize := by
      rcases he with rfl | rfl
      · exact ⟨rfl, by rw [Duplex.state_start, Duplex.state_start], hstart⟩
      · obtain ⟨hmode, hother⟩ := Duplex.apply_other happly _ direction.opposite_ne
        rw [Duplex.state_start] at hother
        exact ⟨hmode, hother.trans (Duplex.state_start ..).symm, hstart.apply happly⟩
    obtain ⟨backs, e', hbacks, hback, hlens'⟩ :=
      Duplex.passes_flatten (hmode.trans_ne hm) hfits direction.opposite (hmode ▸ hpieces)
    obtain ⟨e'', hundo, hlast⟩ := Duplex.apply_opposite hi hstart hmode hstate happly
    rw [hflat] at hback
    obtain ⟨hdata, rfl⟩ := Prod.mk.inj (Except.ok.inj (hback.symm.trans hundo))
    exact ⟨backs, e', hbacks, hdata, hlens', hlast⟩
  · intro mode hb direction s data rest hs hdata hrest
    exact runMode_partial hb direction hs hdata hrest

/-- DES under some key, with a second function that does not undo the first. -/
def forwardDes : BlockCipher :=
  { Des.cipherOf (Des.roundKeys [1, 2, 3, 4, 5, 6, 7, 8]) with
    decryptBlock := id
    length_decryptBlock := fun _ h => h }

/-- Over that cipher CFB takes its output back, in other pieces and on either driver, and CBC leaves
a partial block alone. -/
theorem modes_bijective_forwardDes :
    (List.replicate 8 (0 : UInt8)).length = forwardDes.blockSize ∧ ¬forwardDes.Invertible ∧
    (∃ outs d, (Duplex.start .cfb (List.replicate 8 0)).Passes forwardDes .encrypt
        [[1, 2, 3], [], [4, 5, 6, 7, 8, 9, 10]] outs d ∧
      ∀ pieces : List Bytes, pieces.flatten = outs.flatten →
        ∀ e, e = Duplex.start .cfb (List.replicate 8 0) ∨ e = d →
        ∃ backs e', e.Passes forwardDes .decrypt pieces backs e' ∧
          backs.flatten = [1, 2, 3, 4, 5, 6, 7, 8, 9, 10]) ∧
    ∃ out s', runMode .cbc forwardDes .decrypt (.start (List.replicate 8 0))
        [1, 2, 3, 4, 5, 6, 7, 8] = .ok (out, s') ∧
      runMode .cbc forwardDes .decrypt (.start (List.replicate 8 0))
        [1, 2, 3, 4, 5, 6, 7, 8, 9, 10] = .ok (out ++ [9, 10], s') := by
  have hiv : (List.replicate 8 (0 : UInt8)).length = forwardDes.blockSize := rfl
  obtain ⟨hback, hpartial⟩ := modes_bijective forwardDes hiv
  refine ⟨hiv, ?_, ?_, ?_⟩
  · intro h
    have hzero := @BlockCipher.Invertible.decrypt_encrypt _ h (List.replicate 8 0) rfl
    exact absurd hzero (by decide +kernel)
  · obtain ⟨outs, d, hpasses, -, hopposite⟩ := hback .cfb nofun nofun .encrypt
      [[1, 2, 3], [], [4, 5, 6, 7, 8, 9, 10]] fun _ _ => nofun
    refine ⟨outs, d, hpasses, ?_⟩
    intro pieces hflat e he
    obtain ⟨backs, e', hbacks, hdata, -⟩ := hopposite pieces (fun _ _ => nofun) hflat e he
    exact ⟨backs, e', hbacks, hdata⟩
  · obtain ⟨out, s', hrun, -, hboth⟩ := hpartial .cbc rfl .decrypt (.start (List.replicate 8 0))
      [1, 2, 3, 4, 5, 6, 7, 8] [9, 10] rfl rfl (by decide)
    exact ⟨out, s', hrun, hboth⟩

end SymmetricCipher
