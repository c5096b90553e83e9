import Mathlib.Data.List.Basic

/-!
# Streams of commands with parameters and data

A command is a header word and a number of parameter words fixed by the header;
a number of data words, fixed by the whole command, may follow it.  `segment`
cuts a stream greedily into its complete commands; `Parsed` is the same as a
relation.
-/

namespace Framing

variable {α κ : Type}

structure Format (α κ : Type) where
  /-- The number of parameters and the kind of the command that a word starts. -/
  header : α → Option (Nat × κ)
  accepts : κ → List α → Bool
  /-- The number of data words after a command. -/
  data : κ → List α → Nat

namespace Format

variable (fmt : Format α κ)

/-- The complete commands of a stream, in order; `none` if a word at a command position is not
a header or a command is not accepted.  The stream may end inside a command or its data. -/
def segment : Nat → List α → Option (List (κ × List α))
  | _, [] => some []
  | 0, _ :: _ => none
  | fuel + 1, w :: ws =>
    match fmt.header w with
    | none => none
    | some (n, k) =>
      if ws.length < n then some []
      else
        let cmd := w :: ws.take n
        if fmt.accepts k cmd then
          (segment fuel (ws.drop (n + fmt.data k cmd))).map ((k, cmd) :: ·)
        else none

def calls (ws : List α) : Option (List (κ × List α)) := fmt.segment ws.length ws

structure IsCommand (k : κ) (cmd : List α) : Prop where
  header : ∃ w params, cmd = w :: params ∧ fmt.header w = some (params.length, k)
  accepted : fmt.accepts k cmd = true

/-- `Parsed ws calls`: the complete commands of `ws` are `calls`. -/
inductive Parsed : List α → List (κ × List α) → Prop
  | nil : Parsed [] []
  | incomplete {w : α} {params : List α} {n : Nat} {k : κ} :
      fmt.header w = some (n, k) → params.length < n → Parsed (w :: params) []
  | truncated {k : κ} {cmd data : List α} :
      fmt.IsCommand k cmd → data.length < fmt.data k cmd → Parsed (cmd ++ data) [(k, cmd)]
  | frame {k : κ} {cmd data rest : List α} {calls : List (κ × List α)} :
      fmt.IsCommand k cmd → data.length = fmt.data k cmd → Parsed rest calls →
        Parsed (cmd ++ (data ++ rest)) ((k, cmd) :: calls)

/-- A stream of whole frames. -/
inductive Whole : List α → Prop
  | nil : Whole []
  | frame {k : κ} {cmd data rest : List α} :
      fmt.IsCommand k cmd → data.length = fmt.data k cmd → Whole rest →
        Whole (cmd ++ (data ++ rest))

variable {fmt}

theorem IsCommand.parsed {k : κ} {cmd : List α} (h : fmt.IsCommand k cmd) :
    fmt.Parsed cmd [(k, cmd)] := by
  rcases Nat.eq_zero_or_pos (fmt.data k cmd) with hzero | hpos
  · have hframe : fmt.Parsed (cmd ++ ([] ++ [])) [(k, cmd)] := .frame h hzero.symm .nil
    rwa [List.append_nil, List.append_nil] at hframe
  · have htruncated : fmt.Parsed (cmd ++ []) [(k, cmd)] := .truncated h hpos
    rwa [List.append_nil] at htruncated

/-- A command at the head of a stream. -/
theorem segment_command {k : κ} {cmd ws : List α} (h : fmt.IsCommand k cmd) (fuel : Nat) :
    fmt.segment (fuel + 1) (cmd ++ ws) =
      (fmt.segment fuel (ws.drop (fmt.data k cmd))).map ((k, cmd) :: ·) := by
  obtain ⟨w, params, rfl, hw⟩ := h.header
  simp only [List.cons_append, segment, hw, List.length_append]
  rw [if_neg (by omega), List.take_left, if_pos h.accepted, List.drop_append,
    List.drop_of_length_le (by omega), Nat.add_sub_cancel_left, List.nil_append]

theorem IsCommand.length_pos {k : κ} {cmd : List α} (h : fmt.IsCommand k cmd) :
    0 < cmd.length := by
  obtain ⟨w, params, rfl, -⟩ := h.header
  exact Nat.succ_pos _

theorem exists_fuel {k : κ} {cmd ws : List α} {fuel : Nat} (h : fmt.IsCommand k cmd)
    (hfuel : (cmd ++ ws).length ≤ fuel) : ∃ fuel', fuel = fuel' + 1 := by
  have hpos := h.length_pos
  rw [List.length_append] at hfuel
  exact ⟨fuel - 1, by omega⟩

/-- The words of a command are its header and its parameters. -/
theorem isCommand_take {w : α} {ws : List α} {n : Nat} {k : κ} (hw : fmt.header w = some (n, k))
    (hlen : n ≤ ws.length) (hacc : fmt.accepts k (w :: ws.take n) = true) :
    fmt.IsCommand k (w :: ws.take n) where
  header := ⟨w, ws.take n, rfl, by rw [hw, List.length_take_of_le hlen]⟩
  accepted := hacc

theorem segment_nil (fuel : Nat) : fmt.segment fuel [] = some [] := by
  cases fuel <;> rfl

theorem parsed_of_segment {fuel : Nat} {ws : List α} {calls : List (κ × List α)}
    (h : fmt.segment fuel ws = some calls) : fmt.Parsed ws calls := by
  induction fuel generalizing ws calls with
  | zero =>
    cases ws with
    | nil =>
      cases h
      exact .nil
    | cons => cases h
  | succ fuel ih =>
    cases ws with
    | nil =>
      cases h
      exact .nil
    | cons w ws =>
      simp only [segment] at h
      split at h
      · cases h
      · next n k hw =>
        split at h
        · next hlt =>
          cases h
          exact .incomplete hw hlt
        · next hlen =>
          split at h
          · next hacc =>
            have hcmd := isCommand_take hw (Nat.le_of_not_lt hlen) hacc
            obtain ⟨rest, hrest, rfl⟩ := Option.map_eq_some_iff.mp h
            have hws : w :: ws = (w :: ws.take n) ++ ws.drop n := by
              rw [List.cons_append, List.take_append_drop]
            rw [← List.drop_drop] at hrest
            rw [hws]
            by_cases hdata : (ws.drop n).length < fmt.data k (w :: ws.take n)
            · rw [List.drop_of_length_le (Nat.le_of_lt hdata), segment_nil] at hrest
              cases hrest
              exact .truncated hcmd hdata
            · rw [← List.take_append_drop (fmt.data k (w :: ws.take n)) (ws.drop n)]
              exact .frame hcmd (List.length_take_of_le (Nat.le_of_not_lt hdata)) (ih hrest)
          · cases h

theorem segment_of_parsed {ws : List α} {calls : List (κ × List α)} (h : fmt.Parsed ws calls)
    {fuel : Nat} (hfuel : ws.length ≤ fuel) : fmt.segment fuel ws = some calls := by
  induction h generalizing fuel with
  | nil => exact segment_nil fuel
  | incomplete hw hlt =>
    obtain ⟨fuel, rfl⟩ := Nat.exists_eq_add_of_lt (Nat.lt_of_lt_of_le (Nat.succ_pos _) hfuel)
    simp only [Nat.zero_add, segment, hw, if_pos hlt]
  | truncated hcmd hlt =>
    obtain ⟨fuel, rfl⟩ := exists_fuel hcmd hfuel
    rw [segment_command hcmd, List.drop_of_length_le (Nat.le_of_lt hlt), segment_nil]
    rfl
  | frame hcmd hdata _ ih =>
    have hpos := hcmd.length_pos
    obtain ⟨fuel, rfl⟩ := exists_fuel hcmd hfuel
    rw [List.length_append, List.length_append] at hfuel
    rw [segment_command hcmd, ← hdata, List.drop_left, ih (by omega)]
    rfl

/-- **The greedy segmentation**, as a relation. -/
theorem parsed_iff {ws : List α} {calls : List (κ × List α)} :
    fmt.Parsed ws calls ↔ fmt.calls ws = some calls :=
  ⟨fun h => segment_of_parsed h (Nat.le_refl _), parsed_of_segment⟩

end Format

end Framing
