import CppStation.Gpu.Stream

/-!
# The command stream and its greedy segmentation

A command without data leaves `gp0` at a command position, and so does an image
load once its data has come.  The exception is an image load of width or height
0: `mGp0WordsRemaining` is 0, but the mode is `imageLoad`.  The next word starts
a command, and this whole command is counted as image data.
-/

namespace CppStation

open Fallible

namespace Gpu

/-! ## Image data -/

/-- The next `left` words are image data, the word after them is at a command position. -/
def Expecting (g : Gpu) (left : Nat) : Prop := if left = 0 then g.Ready else g.Loading left

theorem acceptWord_expecting {g : Gpu} {left : Nat} (hmode : g.mGp0Mode = .imageLoad)
    (hremaining : g.mGp0WordsRemaining.toNat = left + 1) (hfits : g.mRenderer.Fits) (w : Word) :
    ∃ g', g.acceptWord w = .ok g' ∧ g'.Expecting left ∧ g'.handled = g.handled := by
  have hleft := toNat_pred hremaining
  refine ⟨_, acceptWord_imageLoad hmode w, ?_, rfl⟩
  unfold Expecting
  split
  · next hzero =>
    have hnone : g.mGp0WordsRemaining - 1 = 0 := BitVec.eq_of_toNat_eq (hleft.trans hzero)
    exact ⟨if_pos hnone, hnone, hfits⟩
  · next hne =>
    refine ⟨if_neg fun hnone => hne ?_, hleft, hfits⟩
    rw [← hleft, hnone]
    rfl

theorem Loading.gp0_data {g : Gpu} {left : Nat} (h : g.Loading (left + 1)) (w : Word) :
    ∃ g', g.gp0 w = .ok g' ∧ g'.Expecting left ∧ g'.handled = g.handled := by
  rw [gp0_arrived h.remaining w]
  exact acceptWord_expecting (g := g.arrived w) h.mode h.remaining h.fits w

/-- After an image load without data a header only sets the number of words to swallow. -/
theorem Loading.gp0_header {g : Gpu} (h : g.Loading 0) {w : Word} {n : Nat} {k : Gp0Method}
    (hw : gp0Format.header w = some (n, k)) :
    ∃ g', g.gp0 w = .ok g' ∧ g'.Expecting n ∧ g'.handled = g.handled := by
  obtain ⟨hstart, hremaining⟩ := gp0_started (BitVec.eq_of_toNat_eq h.remaining) hw
  rw [hstart]
  exact acceptWord_expecting (g := g.started w n k) h.mode hremaining h.fits w

/-- Image data is swallowed whatever its words are. -/
theorem Expecting.run {data : List Word} {g : Gpu} {left : Nat} (h : g.Expecting left)
    (hlen : data.length ≤ left) :
    ∃ g', data.foldlM gp0 g = .ok g' ∧ g'.Expecting (left - data.length) ∧
      g'.handled = g.handled := by
  induction data generalizing g left with
  | nil => exact ⟨g, rfl, h, rfl⟩
  | cons w data ih =>
    cases left with
    | zero => cases hlen
    | succ left =>
      obtain ⟨g1, hg1, hexpecting, hhandled⟩ := Loading.gp0_data h w
      obtain ⟨g', hrun, hrest, heq⟩ := ih hexpecting (Nat.le_of_succ_le_succ hlen)
      refine ⟨g', ?_, ?_, heq.trans hhandled⟩
      · rw [List.foldlM_cons, hg1, ok_bind, hrun]
      · rwa [List.length_cons, Nat.add_sub_add_right]

/-! ## Commands -/

/-- A word that is accepted as part of a command, and the rest of the command. -/
theorem Collecting.run_word {params : List Word} {g g1 : Gpu} {k : Gp0Method} {got : List Word}
    {w : Word} (hg : g.gp0 w = g1.acceptWord w) (h : g1.Collecting k got (params.length + 1))
    (hcmd : gp0Format.IsCommand k (got ++ w :: params)) :
    ∃ g', (w :: params).foldlM gp0 g = .ok g' ∧ g'.Done k (got ++ w :: params) ∧
      g'.handled = g1.handled ++ [(k, got ++ w :: params)] := by
  induction params generalizing g g1 got w with
  | nil =>
    obtain ⟨g', hlast, hdone, heq⟩ := h.acceptWord_last hcmd
    refine ⟨g', ?_, hdone, heq⟩
    rw [List.foldlM_cons, hg, hlast]
    rfl
  | cons w' params ih =>
    obtain ⟨g2, hmore, hcollecting, heq⟩ := h.acceptWord_more w
    have hassoc : got ++ w :: w' :: params = (got ++ [w]) ++ w' :: params := by
      rw [List.append_assoc, List.singleton_append]
    rw [hassoc] at hcmd ⊢
    obtain ⟨hg', hcollecting'⟩ := hcollecting.gp0_param w'
    obtain ⟨g', hrun, hdone, hrest⟩ := ih hg' hcollecting' hcmd
    refine ⟨g', ?_, hdone, by rw [hrest, ← heq]; rfl⟩
    rw [List.foldlM_cons, hg, hmore, ok_bind, hrun]

/-- The same without the end of the command, which then runs nothing. -/
theorem Collecting.run_word_partial {params : List Word} {g g1 : Gpu} {k : Gp0Method}
    {got : List Word} {left : Nat} {w : Word} (hg : g.gp0 w = g1.acceptWord w)
    (h : g1.Collecting k got left) (hlen : params.length + 1 < left) :
    ∃ g', (w :: params).foldlM gp0 g = .ok g' ∧ g'.handled = g1.handled := by
  induction params generalizing g g1 got left w with
  | nil =>
    obtain ⟨left, rfl⟩ : ∃ n, left = n + 2 := ⟨left - 2, by omega⟩
    obtain ⟨g2, hmore, -, heq⟩ := h.acceptWord_more w
    refine ⟨g2, ?_, heq⟩
    rw [List.foldlM_cons, hg, hmore]
    rfl
  | cons w' params ih =>
    rw [List.length_cons] at hlen
    obtain ⟨left, rfl⟩ : ∃ n, left = n + 2 := ⟨left - 2, by omega⟩
    obtain ⟨g2, hmore, hcollecting, heq⟩ := h.acceptWord_more w
    obtain ⟨hg', hcollecting'⟩ := hcollecting.gp0_param w'
    obtain ⟨g', hrun, hrest⟩ := ih hg' hcollecting' (by omega)
    refine ⟨g', ?_, hrest.trans heq⟩
    rw [List.foldlM_cons, hg, hmore, ok_bind, hrun]

/-- **A whole command** runs its handler once, on its own words. -/
theorem Ready.run_command {g : Gpu} (h : g.Ready) {k : Gp0Method} {cmd : List Word}
    (hcmd : gp0Format.IsCommand k cmd) :
    ∃ g', cmd.foldlM gp0 g = .ok g' ∧ g'.Done k cmd ∧ g'.handled = g.handled ++ [(k, cmd)] := by
  obtain ⟨w, params, rfl, hw⟩ := hcmd.header
  obtain ⟨hg, hcollecting⟩ := h.gp0_header hw
  exact hcollecting.run_word hg hcmd

/-- An unfinished command runs nothing. -/
theorem Ready.run_incomplete {g : Gpu} (h : g.Ready) {w : Word} {n : Nat} {k : Gp0Method}
    (hw : gp0Format.header w = some (n, k)) {params : List Word} (hlen : params.length < n) :
    ∃ g', (w :: params).foldlM gp0 g = .ok g' ∧ g'.handled = g.handled := by
  obtain ⟨hg, hcollecting⟩ := h.gp0_header hw
  obtain ⟨g', hrun, heq⟩ := hcollecting.run_word_partial hg (Nat.succ_lt_succ hlen)
  exact ⟨g', hrun, heq⟩

/-! ## Frames -/

/-- The command is an image load of width or height 0. -/
def LoadsNothing (k : Gp0Method) (cmd : List Word) : Prop :=
  k = .gp0ImageLoad ∧ gp0Format.data k cmd = 0

theorem Done.expecting {g : Gpu} {k : Gp0Method} {cmd : List Word} (h : g.Done k cmd)
    (hne : ¬ LoadsNothing k cmd) : g.Expecting (gp0Format.data k cmd) := by
  unfold Done at h
  unfold Expecting
  by_cases hk : k = .gp0ImageLoad
  · rw [if_pos hk] at h
    rwa [if_neg fun hzero => hne ⟨hk, hzero⟩]
  · rw [if_neg hk] at h
    rwa [if_pos (data_of_ne hk cmd)]

theorem Done.stalled {g : Gpu} {k : Gp0Method} {cmd : List Word} (h : g.Done k cmd)
    (hload : LoadsNothing k cmd) : g.Loading 0 := by
  unfold Done at h
  rwa [if_pos hload.1, hload.2] at h

/-- A command and some of its data. -/
theorem Ready.run_frame {g : Gpu} (h : g.Ready) {k : Gp0Method} {cmd data : List Word}
    (hcmd : gp0Format.IsCommand k cmd) (hne : ¬ LoadsNothing k cmd)
    (hlen : data.length ≤ gp0Format.data k cmd) :
    ∃ g', (cmd ++ data).foldlM gp0 g = .ok g' ∧
      g'.Expecting (gp0Format.data k cmd - data.length) ∧
      g'.handled = g.handled ++ [(k, cmd)] := by
  obtain ⟨g1, hrun, hdone, hhandled⟩ := h.run_command hcmd
  obtain ⟨g', hdata, hexpecting, heq⟩ := (hdone.expecting hne).run hlen
  refine ⟨g', ?_, hexpecting, heq.trans hhandled⟩
  rw [List.foldlM_append, hrun, ok_bind, hdata]

theorem Ready.run_wholeFrame {g : Gpu} (h : g.Ready) {k : Gp0Method} {cmd data : List Word}
    (hcmd : gp0Format.IsCommand k cmd) (hne : ¬ LoadsNothing k cmd)
    (hlen : data.length = gp0Format.data k cmd) :
    ∃ g', (cmd ++ data).foldlM gp0 g = .ok g' ∧ g'.Ready ∧
      g'.handled = g.handled ++ [(k, cmd)] := by
  obtain ⟨g', hrun, hexpecting, hhandled⟩ := h.run_frame hcmd hne (Nat.le_of_eq hlen)
  rw [hlen, Nat.sub_self] at hexpecting
  exact ⟨g', hrun, hexpecting, hhandled⟩

/-- The beginning of a command is swallowed after an image load without data. -/
theorem Loading.run_header {g : Gpu} (h : g.Loading 0) {w : Word} {params : List Word} {n : Nat}
    {k : Gp0Method} (hw : gp0Format.header w = some (n, k)) (hlen : params.length ≤ n) :
    ∃ g', (w :: params).foldlM gp0 g = .ok g' ∧ g'.handled = g.handled := by
  obtain ⟨g1, hg, hexpecting, hhandled⟩ := h.gp0_header hw
  obtain ⟨g', hrun, -, heq⟩ := hexpecting.run hlen
  refine ⟨g', ?_, heq.trans hhandled⟩
  rw [List.foldlM_cons, hg, ok_bind, hrun]

/-! ## The law of the stream -/

/-- At every point of the stream up to which every word at a command position is handled, the
handlers run so far, with the words each of them saw, are the greedy segmentation. -/
def FramedStream (g : Gpu) (ws : List Word) : Prop :=
  ∀ pre calls, pre <+: ws → gp0Format.calls pre = some calls →
    ∃ g', pre.foldlM gp0 g = .ok g' ∧ g'.handled = g.handled ++ calls

/-- Somewhere in the stream a complete command follows an image load without data. -/
def LosesCommand (ws : List Word) : Prop :=
  ∃ before load kind next rest, gp0Format.Whole before ∧
    gp0Format.IsCommand .gp0ImageLoad load ∧ gp0Format.data .gp0ImageLoad load = 0 ∧
    gp0Format.IsCommand kind next ∧ ws = before ++ (load ++ (next ++ rest))

theorem LosesCommand.frame {k : Gp0Method} {cmd data ws : List Word}
    (hcmd : gp0Format.IsCommand k cmd) (hdata : data.length = gp0Format.data k cmd)
    (h : LosesCommand ws) : LosesCommand (cmd ++ (data ++ ws)) := by
  obtain ⟨before, load, kind, next, rest, hbefore, hload, hzero, hnext, rfl⟩ := h
  refine ⟨cmd ++ (data ++ before), load, kind, next, rest, .frame hcmd hdata hbefore, hload,
    hzero, hnext, ?_⟩
  simp only [List.append_assoc]

theorem LosesCommand.of_prefix {pre ws : List Word} (h : LosesCommand pre) (hpre : pre <+: ws) :
    LosesCommand ws := by
  obtain ⟨before, load, kind, next, rest, hbefore, hload, hzero, hnext, rfl⟩ := h
  obtain ⟨rest', rfl⟩ := hpre
  refine ⟨before, load, kind, next, rest ++ rest', hbefore, hload, hzero, hnext, ?_⟩
  simp only [List.append_assoc]

/-- A complete command right after an image load without data. -/
theorem losesCommand_head {k kind : Gp0Method} {load data next rest : List Word}
    (hload : gp0Format.IsCommand k load) (hnone : LoadsNothing k load)
    (hdata : data.length = gp0Format.data k load) (hnext : gp0Format.IsCommand kind next) :
    LosesCommand (load ++ (data ++ (next ++ rest))) := by
  obtain ⟨rfl, hzero⟩ := hnone
  obtain rfl := List.length_eq_zero_iff.mp (hdata.trans hzero)
  exact ⟨[], load, kind, next, rest, .nil, hload, hzero, hnext, rfl⟩

/-- A stream that loses no command runs as it is segmented. -/
theorem Ready.run_parsed {ws : List Word} {calls : List (Gp0Method × List Word)}
    (hws : gp0Format.Parsed ws calls) {g : Gpu} (h : g.Ready) (hkeep : ¬ LosesCommand ws) :
    ∃ g', ws.foldlM gp0 g = .ok g' ∧ g'.handled = g.handled ++ calls := by
  induction hws generalizing g with
  | nil => exact ⟨g, rfl, (List.append_nil _).symm⟩
  | incomplete hw hlen =>
    obtain ⟨g', hrun, hhandled⟩ := h.run_incomplete hw hlen
    exact ⟨g', hrun, hhandled.trans (List.append_nil _).symm⟩
  | truncated hcmd hlen =>
    obtain ⟨g', hrun, -, hhandled⟩ :=
      h.run_frame hcmd (fun hnone => by rw [hnone.2] at hlen; cases hlen) (Nat.le_of_lt hlen)
    exact ⟨g', hrun, hhandled⟩
  | @frame k cmd data rest calls hcmd hdata hrest ih =>
    by_cases hnone : LoadsNothing k cmd
    · -- only an unfinished command can follow
      obtain ⟨g1, hrun, hdone, hhandled⟩ := h.run_command hcmd
      obtain rfl := List.length_eq_zero_iff.mp (hdata.trans hnone.2)
      cases hrest with
      | nil => exact ⟨g1, by rw [List.append_nil, List.append_nil]; exact hrun, hhandled⟩
      | incomplete hw hlen =>
        obtain ⟨g', hheader, heq⟩ := (hdone.stalled hnone).run_header hw (Nat.le_of_lt hlen)
        refine ⟨g', ?_, heq.trans hhandled⟩
        rw [List.nil_append, List.foldlM_append, hrun, ok_bind, hheader]
      | truncated hnext _ => exact absurd (losesCommand_head hcmd hnone hdata hnext) hkeep
      | frame hnext _ _ => exact absurd (losesCommand_head hcmd hnone hdata hnext) hkeep
    · obtain ⟨g1, hrun, hready, hhandled⟩ := h.run_wholeFrame hcmd hnone hdata
      obtain ⟨g', hrun', heq⟩ := ih hready fun hlost => hkeep (hlost.frame hcmd hdata)
      refine ⟨g', ?_, by rw [heq, hhandled, List.append_assoc]; rfl⟩
      rw [← List.append_assoc, List.foldlM_append, hrun, ok_bind, hrun']

/-- The law of the rest of a stream after a whole frame. -/
theorem FramedStream.shift {g g' : Gpu} {k : Gp0Method} {cmd data ws : List Word}
    (h : FramedStream g (cmd ++ (data ++ ws))) (hcmd : gp0Format.IsCommand k cmd)
    (hdata : data.length = gp0Format.data k cmd) (hrun : (cmd ++ data).foldlM gp0 g = .ok g')
    (hhandled : g'.handled = g.handled ++ [(k, cmd)]) : FramedStream g' ws := by
  intro pre calls hpre hcalls
  have hframe := Framing.Format.parsed_iff.mp
    (.frame hcmd hdata (Framing.Format.parsed_iff.mpr hcalls))
  have hprefix : cmd ++ (data ++ pre) <+: cmd ++ (data ++ ws) :=
    (List.prefix_append_right_inj _).mpr ((List.prefix_append_right_inj _).mpr hpre)
  obtain ⟨g'', hall, heq⟩ := h _ _ hprefix hframe
  rw [← List.append_assoc, List.foldlM_append, hrun, ok_bind] at hall
  exact ⟨g'', hall, by rw [heq, hhandled, List.append_assoc]; rfl⟩

/-- The handler of a command after an image load without data does not run. -/
theorem Ready.not_framedStream_head {g : Gpu} (h : g.Ready) {k kind : Gp0Method}
    {load data next rest : List Word} (hload : gp0Format.IsCommand k load)
    (hnone : LoadsNothing k load) (hdata : data.length = gp0Format.data k load)
    (hnext : gp0Format.IsCommand kind next) :
    ¬ FramedStream g (load ++ (data ++ (next ++ rest))) := by
  intro hframed
  have hcalls := Framing.Format.parsed_iff.mp (.frame hload hdata hnext.parsed)
  have hprefix : load ++ (data ++ next) <+: load ++ (data ++ (next ++ rest)) :=
    ⟨rest, by simp only [List.append_assoc]⟩
  obtain ⟨g', hall, heq⟩ := hframed _ _ hprefix hcalls
  obtain ⟨g1, hrun, hdone, hhandled⟩ := h.run_command hload
  obtain rfl := List.length_eq_zero_iff.mp (hdata.trans hnone.2)
  obtain ⟨w, params, rfl, hw⟩ := hnext.header
  obtain ⟨g2, hlost, hkept⟩ := (hdone.stalled hnone).run_header hw (Nat.le_refl _)
  rw [List.nil_append, List.foldlM_append, hrun, ok_bind, hlost] at hall
  cases hall
  rw [hkept, hhandled, List.append_cancel_left_eq] at heq
  cases heq

theorem Ready.not_framedStream {before : List Word} (hbefore : gp0Format.Whole before) {g : Gpu}
    (h : g.Ready) {kind : Gp0Method} {load next rest : List Word}
    (hload : gp0Format.IsCommand .gp0ImageLoad load)
    (hzero : gp0Format.data .gp0ImageLoad load = 0) (hnext : gp0Format.IsCommand kind next) :
    ¬ FramedStream g (before ++ (load ++ (next ++ rest))) := by
  induction hbefore generalizing g with
  | nil =>
    change ¬ FramedStream g (load ++ ([] ++ (next ++ rest)))
    exact h.not_framedStream_head hload ⟨rfl, hzero⟩ hzero.symm hnext
  | @frame k cmd data before hcmd hdata hbefore ih =>
    rw [List.append_assoc, List.append_assoc]
    by_cases hnone : LoadsNothing k cmd
    · -- the frame is itself an image load without data, followed by a command
      cases hbefore with
      | nil =>
        rw [List.nil_append]
        exact h.not_framedStream_head hcmd hnone hdata hload
      | frame hnext' _ _ =>
        rw [List.append_assoc]
        exact h.not_framedStream_head hcmd hnone hdata hnext'
    · intro hframed
      obtain ⟨g', hrun, hready, hhandled⟩ := h.run_wholeFrame hcmd hnone hdata
      exact ih hready (hframed.shift hcmd hdata hrun hhandled)

/-- A constructed GPU, or the state right after `GP1(0x00)` or `GP1(0x01)`. -/
inductive Start : Gpu → Prop
  | new : Start new
  | reset {g g' : Gpu} {val : Word} :
      Reachable g → val.toNat / 2 ^ 24 ≤ 1 → g.gp1 val = .ok g' → Start g'

theorem Start.ready {g : Gpu} (h : Start g) : g.Ready := by
  cases h with
  | new => exact ⟨rfl, rfl, Renderer.fits_new⟩
  | @reset g0 _ val hreach hopcode hport =>
    have hfits := fits_gp1 hreach.fits hport
    have hcases : ((val >>> 24) &&& 0xff).toNat = 0 ∨ ((val >>> 24) &&& 0xff).toNat = 1 := by
      rw [opcode_toNat]
      omega
    rcases hcases with hop | hop
    · simp only [gp1, hop] at hport
      cases hport
      exact ⟨rfl, rfl, hfits⟩
    · simp only [gp1, hop] at hport
      cases hport
      exact ⟨rfl, rfl, hfits⟩

/-- **The framing of the stream**: it holds exactly if no command is lost. -/
theorem framedStream_iff {g : Gpu} (h : Start g) (ws : List Word) :
    FramedStream g ws ↔ ¬ LosesCommand ws := by
  constructor
  · rintro hframed ⟨before, load, kind, next, rest, hbefore, hload, hzero, hnext, rfl⟩
    exact h.ready.not_framedStream hbefore hload hzero hnext hframed
  · intro hkeep pre calls hpre hcalls
    exact h.ready.run_parsed (Framing.Format.parsed_iff.mpr hcalls) fun hlost =>
      hkeep (hlost.of_prefix hpre)

/-- After a reset, an image load of width 0 and height 16 swallows a mask bit setting. -/
theorem framedStream_reset :
    ¬ FramedStream (new.gp1Reset 0) [0xa0000000, 0, 0x00100000, 0xe6000001] := by
  have hopcode : (0 : Word).toNat / 2 ^ 24 ≤ 1 := by decide
  have hstart : Start (new.gp1Reset 0) := .reset .new hopcode rfl
  refine fun hframed => (framedStream_iff hstart _).mp hframed ?_
  exact ⟨[], [0xa0000000, 0, 0x00100000], .gp0MaskBitSetting, [0xe6000001], [], .nil,
    ⟨⟨_, _, rfl, by decide⟩, rfl⟩, by decide, ⟨⟨_, _, rfl, by decide⟩, rfl⟩, rfl⟩

/-- An image load of width and height 0, then a draw mode setting. -/
theorem not_forall_framedStream : ¬ ∀ g ws, Start g → FramedStream g ws := by
  intro h
  have hcalls : gp0Format.calls [0xa0000000, 0, 0, 0xe1000000] = some
      [(.gp0ImageLoad, [0xa0000000, 0, 0]), (.gp0DrawMode, [0xe1000000])] := by decide
  have hrun : okAnd (List.foldlM gp0 new [0xa0000000, 0, 0, 0xe1000000]) (fun g =>
      g.handled = [(.gp0ImageLoad, [0xa0000000, 0, 0])]) = true := by decide +kernel
  obtain ⟨g', hg', hhandled⟩ := h new _ .new _ _ (List.prefix_refl _) hcalls
  rw [hg', okAnd_ok, hhandled] at hrun
  exact absurd hrun (by decide)

end Gpu

end CppStation
