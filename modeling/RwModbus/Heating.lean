import RwModbus.Readings

/-!
# The pressure correction of the heating power

From process 9 on `SetPower` takes the pressure correction off the level that
`P_rect` selected, but only while the level exceeds it. A correction that
reaches the level is not applied at all.
-/
namespace RwModbus.Scada
open Numeric Registers Opc

section
variable (env : Env) {s : ScadaState}

theorem pHeat_leaves (h : s.vars.process ≠ 4) :
    Leaves ["P.heat"] [("P.heat", .ofUi16 0)] s (pHeat env s).2 ∧
      (pHeat env s).2.vars = { s.vars with pHeat := 0 } := by
  have hrun : (pHeat env s).2 =
      (writeU16 env "P.heat" 0 (s.mapVars fun g => { g with pHeat := 0 })).2 := by
    have h4 : (s.vars.process == 4) = false := by simpa using h
    simp only [pHeat, bind_apply, setVars_apply, get_apply, mapVars_vars, h4, onlyIf_false, pure_apply]
  rw [hrun]
  refine ⟨(mapVars_leaves _ s).trans (writeU16_leaves env _ (by decide) 0 _), ?_⟩
  rw [writeU16_vars, mapVars_vars]

theorem pDist_leaves (h : ¬ (s.vars.process = 1 ∨ s.vars.process = 2)) :
    Leaves ["P.dist"] [("P.dist", .ofUi16 0)] s (pDist env s).2 ∧
      (pDist env s).2.vars = { s.vars with pDist := 0 } := by
  have hrun : (pDist env s).2 =
      (writeU16 env "P.dist" 0 (s.mapVars fun g => { g with pDist := 0 })).2 := by
    have h12 : (s.vars.process == 1 || s.vars.process == 2) = false := by simpa using h
    simp only [pDist, bind_apply, setVars_apply, get_apply, mapVars_vars, h12, onlyIf_false, pure_apply]
  rw [hrun]
  refine ⟨(mapVars_leaves _ s).trans (writeU16_leaves env _ (by decide) 0 _), ?_⟩
  rw [writeU16_vars, mapVars_vars]

theorem rectLevel_plain (m : Word) : ∀ svar ∈ rectLevel m,
    svar ∈ ["P_MAX", "P_WARM", "P_HEAD", "P_BODY", "P_TAIL"] := by
  intro svar h
  unfold rectLevel at h
  grind

theorem configured_rect_congr {N : List String} {env' : Env} {o o' : OpcServer} (ho : Keeps N o o')
    (hN : ∀ svar ∈ ["P_MAX", "P_WARM", "P_HEAD", "P_BODY", "P_TAIL"], svar ∉ N)
    (henv : ∀ svar ∈ ["P_MAX", "P_WARM", "P_HEAD", "P_BODY", "P_TAIL"], SameData svar env env')
    (m : Word) : configured env' o' (rectLevel m) = configured env o (rectLevel m) := by
  have hplain : ∀ svar ∈ ["P_MAX", "P_WARM", "P_HEAD", "P_BODY", "P_TAIL"], Plain svar := by decide
  have hrect := rectLevel_plain m
  exact configured_congr ho (fun svar h => ⟨hplain svar (hrect svar h), hN svar (hrect svar h)⟩)
    fun svar h => henv svar (hrect svar h)

theorem pRect_leaves :
    let p := configured env s.opcs (rectLevel (rectMode s.vars))
    Leaves ["P.rect"] [("P.rect", .ofUi16 p)] s (pRect env s).2 ∧
      (pRect env s).2.vars = { s.vars with pRect := p, modRect := rectMode s.vars } ∧
      level env (pRect env s).2.opcs "P.rect" = readBack env s.opcs "P.rect" p := by
  intro p
  have hread := readLevel_leaves env (rectLevel (rectMode s.vars))
    (s.mapVars fun g => { g with pRect := 0, modRect := rectMode g })
  have hkeep := (mapVars_leaves _ s).trans
    (hread.trans (mapVars_leaves (fun g => { g with pRect := p }) _))
  simp only [pRect, bind_apply, setVars_apply, get_apply, mapVars_vars, readLevel_fst, mapVars_opcs,
    readLevel_vars, writeU16_vars, level_writeU16]
  refine ⟨hkeep.trans (writeU16_leaves env _ (by decide) p _), rfl, ?_⟩
  exact readBack_congr hread.opcs (by decide) (by decide) (.refl _ _) p

/-- The power level that `SetPower` finds for the set-point from process 9 on. -/
def selectedLevel (env : Env) (s : ScadaState) : Word :=
  if s.vars.process ≤ 79 then
    readBack env s.opcs "P.rect" (configured env s.opcs (rectLevel (rectMode s.vars)))
  else 0

/-- The pressure correction that `SetPower` reads. -/
def pshiftOf (env : Env) (s : ScadaState) : ℤ :=
  (reading env s.opcs "Pshift" (env.unset "Pshift")).1.ui32.toInt

theorem powerVar_of_ge {process : Word} (h : 9 ≤ process) :
    powerVar process = if process ≤ 79 then some "P.rect" else none := by
  unfold powerVar
  rw [if_neg (by bv_omega), if_neg (by bv_omega), if_neg (by bv_omega)]
  simp only [h, true_and]

/-- From process 9 on the set-point is the selected level, shifted. -/
theorem setPower_writes (h : 9 ≤ s.vars.process) :
    lastWritten "Pset" (setPower env s).2 =
      some (.ofUi16 (shiftPset s.vars.process (pshiftOf env s) (selectedLevel env s))) := by
  have hread := readNumber_leaves env "Pshift" (env.unset "Pshift")
    (s.mapVars fun g => { g with pset := 0 })
  have hps : (readInt env "Pshift" (s.mapVars fun g => { g with pset := 0 })).1 =
      pshiftOf env s := rfl
  have h₁ : (readInt env "Pshift" (s.mapVars fun g => { g with pset := 0 })).2.vars =
      { s.vars with pset := 0 } := rfl
  rw [← readInt_snd] at hread
  generalize e₁ : (readInt env "Pshift" (s.mapVars fun g => { g with pset := 0 })).2 = s₁ at hread h₁
  obtain ⟨hheat, h₂⟩ := pHeat_leaves env (s := s₁) (by rw [h₁]; dsimp only; bv_omega)
  generalize e₂ : (pHeat env s₁).2 = s₂ at hheat h₂
  obtain ⟨hdist, h₃⟩ := pDist_leaves env (s := s₂) (by rw [h₂, h₁]; dsimp only; bv_omega)
  generalize e₃ : (pDist env s₂).2 = s₃ at hdist h₃
  obtain ⟨-, h₄, hback⟩ := pRect_leaves env (s := s₃)
  generalize e₄ : (pRect env s₃).2 = s₄ at h₄ hback
  have hkeep : Keeps ["P.heat", "P.dist"] s.opcs s₃.opcs :=
    (hread.trans (hheat.trans hdist)).opcs
  have hlevel : configured env s₄.opcs (powerVar s.vars.process) = selectedLevel env s := by
    rw [powerVar_of_ge h, selectedLevel]
    split_ifs
    · rw [configured, hback, readBack_congr hkeep (by decide) (by decide) (.refl _ _),
        configured_rect_congr env hkeep (by decide) fun _ _ => .refl _ _, h₃, h₂, h₁]
      rfl
    · rfl
  have hprocess : s₄.vars.process = s.vars.process := by rw [h₄, h₃, h₂, h₁]
  simp only [setPower, bind_apply, setVars_apply, get_apply, mapVars_vars, hps, e₁, e₂, e₃, e₄,
    readLevel_fst, readLevel_vars, hprocess, hlevel, lastWritten_writeU16]

end

theorem shiftPset_toNat {process : Word} (h : 9 ≤ process) {pshift : ℤ} (h0 : 0 ≤ pshift) (p : Word) :
    ((shiftPset process pshift p).toNat : ℤ) =
      if pshift < p.toNat then (p.toNat : ℤ) - pshift else p.toNat := by
  have hp := p.isLt
  unfold shiftPset
  simp only [h, true_and]
  split_ifs with hlt
  · rw [BitVec.toNat_ofInt, Int.toNat_of_nonneg (by omega)]
    omega
  · rfl

/-- A larger correction leaves no more power exactly if it stays below the level,
or the smaller one did not reach it either, or there was none. -/
theorem shiftPset_le_iff {process : Word} (h : 9 ≤ process) {ps ps' : ℤ} (h0 : 0 ≤ ps)
    (hle : ps ≤ ps') (p : Word) :
    shiftPset process ps' p ≤ shiftPset process ps p ↔ ps' < p.toNat ∨ (p.toNat : ℤ) ≤ ps ∨ ps = 0 := by
  have hps := shiftPset_toNat h h0 p
  have hps' := shiftPset_toNat h (h0.trans hle) p
  rw [BitVec.le_def]
  split_ifs at hps hps' <;> omega

section
variable {env env' : Env} {s s' : ScadaState}

theorem selectedLevel_congr (h : AlikeBut "Pshift" env env' s s') :
    selectedLevel env' s' = selectedLevel env s := by
  have hother : ∀ svar ∈ ["P_MAX", "P_WARM", "P_HEAD", "P_BODY", "P_TAIL"], svar ≠ "Pshift" := by
    decide
  rw [selectedLevel, selectedLevel, h.vars,
    configured_rect_congr env h.opcs (by decide) fun svar hmem => h.data svar (hother svar hmem),
    readBack_congr h.opcs (by decide) (by decide) (h.data "P.rect" (by decide))]

/-- The set-point that `SetPower` writes. -/
def psetWritten (env : Env) (s : ScadaState) : Option Word :=
  (lastWritten "Pset" (setPower env s).2).map NumericU.ui16

/-- Of two passes that differ in the pressure correction only, the one with the
larger correction writes the larger set-point exactly if its correction reaches the
selected level while the smaller one is positive and does not. -/
theorem psetWritten_le_iff (h : AlikeBut "Pshift" env env' s s') (h9 : 9 ≤ s.vars.process)
    (h0 : 0 ≤ pshiftOf env s) (hle : pshiftOf env s ≤ pshiftOf env' s') :
    ∃ p p', psetWritten env s = some p ∧ psetWritten env' s' = some p' ∧
      (p' ≤ p ↔ pshiftOf env' s' < (selectedLevel env s).toNat ∨
        ((selectedLevel env s).toNat : ℤ) ≤ pshiftOf env s ∨ pshiftOf env s = 0) := by
  have h9' : 9 ≤ s'.vars.process := h.vars ▸ h9
  have hp := setPower_writes env h9
  have hp' := setPower_writes env' h9'
  rw [h.vars, selectedLevel_congr h] at hp'
  refine ⟨_, _, congrArg (Option.map NumericU.ui16) hp, congrArg (Option.map NumericU.ui16) hp', ?_⟩
  exact shiftPset_le_iff h9 h0 hle _

end

def rectVar (pshift : Word) (n : String) : UaVar :=
  if n = "/SCADA/P_BODY" then { uaType := .uint16, node := .ofUi16 100 }
  else if n = "/SCADA/Pshift" then { uaType := .int16, node := .ofUi16 pshift }
  else { uaType := .uint16 }

def rectState (pshift : Word) : ScadaState where
  opcs := serverOf ["/SCADA/P.rect", "/SCADA/P_BODY", "/SCADA/Pset", "/SCADA/Pshift"] (by decide)
    (rectVar pshift)
  vars := { process := 50 }

theorem rectState_alike (a b : Word) :
    AlikeBut "Pshift" quiet quiet (rectState a) (rectState b) := by
  refine ⟨rfl, serverOf_keeps _ (fun n => ?_) (fun n hn => ?_), fun _ _ => .refl _ _⟩
  · unfold rectVar
    split_ifs <;> exact ⟨rfl, rfl⟩
  · unfold rectVar
    split_ifs with hbody hshift
    · rfl
    · exact absurd (hshift ▸ hn) (by decide)
    · rfl

theorem psetWritten_below : ∃ p p', psetWritten quiet (rectState 40) = some p ∧
    psetWritten quiet (rectState 60) = some p' ∧
      (p' ≤ p ↔ pshiftOf quiet (rectState 60) < (selectedLevel quiet (rectState 40)).toNat ∨
        ((selectedLevel quiet (rectState 40)).toNat : ℤ) ≤ pshiftOf quiet (rectState 40) ∨
          pshiftOf quiet (rectState 40) = 0) :=
  psetWritten_le_iff (rectState_alike 40 60) (by decide) (by decide) (by decide)

/-- With a correction of 90 the set-point is 10, with one of 100 it is 100. -/
theorem psetWritten_rises : ¬ ∀ (env env' : Env) (s s' : ScadaState), AlikeBut "Pshift" env env' s s' →
    9 ≤ s.vars.process → 0 ≤ pshiftOf env s → pshiftOf env s ≤ pshiftOf env' s' →
    ∀ p ∈ psetWritten env s, ∀ p' ∈ psetWritten env' s', p' ≤ p := by
  intro h
  have hp := setPower_writes quiet (s := rectState 90) (by decide)
  have hp' := setPower_writes quiet (s := rectState 100) (by decide)
  have hle := h _ _ _ _ (rectState_alike 90 100) (by decide) (by decide) (by decide)
    _ (congrArg (Option.map NumericU.ui16) hp) _ (congrArg (Option.map NumericU.ui16) hp')
  revert hle
  decide

end RwModbus.Scada
