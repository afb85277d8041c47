import Prephv.Fdt.Nodes
import Prephv.Rom.Walk
import Prephv.Time.Model

/-!
# Time — Heartbeat

`cpu_init` of `main.c`: what it reads of the device tree, and the timer it queues for the firmware.
It takes the result of `fdt_node_check_compatible`, which says whether a node matches, for the
offset of a node, and asks it about no node at all; so it finds no heartbeat, in any tree
(`cpuInit_not_armed`).
-/

set_option autoImplicit false

namespace Prephv

/-! ### `fdt_ro.c` -/

/-- `fdt_node_check_compatible`. -/
def Fdt.nodeCheckCompatible (fdt : Fdt) (nodeoffset : FdtInt) (compatible : String) :
    MemRes FdtInt := do
  match ← fdt.getprop nodeoffset "compatible" with
  | (none, len) => .ok len
  | (some prop, len) =>
    let found ← stringlistContains fdt.mem (ascii compatible) steps prop len.toInt
    .ok (if found then 0 else 1)

/-! ### `main.c` -/

/-- Why `cpu_init` stops before it returns. -/
inductive CpuErr where
  | fdt (e : MemErr)
  | time (e : TimeErr × TimeState)

/-- What `cpu_init` sets: two fields of the KPCR, `opal_timer.ctx`, and the timers. -/
structure CpuState where
  slbSize : U64
  tbFreq : U64
  opalCtx : U64
  time : TimeState

/-- `ms_to_tb`. -/
def msToTb (tbFreq ms : U64) : U64 := ms * (tbFreq / 1000)

/-- `fdt32_to_cpu(*be32_data)`, where the property is there. -/
def be32Prop (fdt : Fdt) (node : FdtInt) (name : String) : MemRes (Option U32) := do
  let (data, _) ← fdt.getprop node name
  .ok (data.map (be32 fdt.mem))

/-- `opal_ms`, as `cpu_init` finds it. -/
def opalMs (fdt : Fdt) : MemRes U64 := do
  let node ← fdt.nodeCheckCompatible (-1) "ibm,opal-v3"
  if node.neg then .ok 0
  else
    let data ← be32Prop fdt node "ibm,heartbeat-ms"
    .ok (match data with
      | some ms => ms.setWidth 64
      | none => 0)

section

variable (env : TimeEnv) (fuel : Nat) (opalTimer : TimeReq)

/-- `cpu_init` from `time_init` on. -/
def cpuTimers (ms : U64) (s : CpuState) : TimeRes CpuState :=
  let time := timeInit s.time
  if ms ≠ 0 then do
    let time := timePrep (msToTb s.tbFreq ms + env.mftb time.ticks) opalTimer
      { time with ticks := time.ticks + 1 }
    let time ← timeEnqueue env fuel opalTimer time
    .ok { s with opalCtx := ms, time := time }
  else .ok { s with time := time }

/-- `cpu_init`, where `exc_init` and `mmu_init` return. -/
def cpuInit (fdt : Fdt) (s : CpuState) : Except CpuErr CpuState := do
  let node ← (fdt.nodeOffsetByDtype (-1) "cpu").mapError .fdt
  if node.neg then .ok s
  else
    let slbSize ← (be32Prop fdt node "slb-size").mapError .fdt
    let s := { s with slbSize := (slbSize.getD 32).setWidth 64 }
    let tbFreq ← (be32Prop fdt node "timebase-frequency").mapError .fdt
    let s := { s with tbFreq := (tbFreq.getD 512000000).setWidth 64 }
    let ms ← (opalMs fdt).mapError .fdt
    (cpuTimers env fuel opalTimer ms s).mapError .time

end

/-! ### The heartbeat -/

/-- The node's firmware wants to be called every `m` milliseconds. -/
structure Fdt.Heartbeat (fdt : Fdt) (q : FdtInt) (m : U32) : Prop where
  node : fdt.IsNode q
  compatible : fdt.nodeCheckCompatible q "ibm,opal-v3" = .ok 0
  ms : ∃ p, fdt.getprop q "ibm,heartbeat-ms" = .ok (some p, 4) ∧ be32 fdt.mem p = m
  ne_zero : m ≠ 0

/-- The timer is queued, with that period. -/
def CpuState.Armed (s : CpuState) (opalTimer : TimeReq) (m : U32) : Prop :=
  opalTimer ∈ s.time.reqs ∧ s.opalCtx = m.setWidth 64

/-- What is wrong with the header is a negative `int`. -/
theorem Fdt.checkHeader_neg {fdt : Fdt} (h : fdt.checkHeader ≠ 0) : fdt.checkHeader.neg = true := by
  unfold checkHeader at h ⊢
  split_ifs at h ⊢ <;> first | exact absurd rfl h | decide

/-- Asked about no node, the check answers with an error. -/
theorem Fdt.nodeCheckCompatible_neg {fdt : Fdt} {o : FdtInt} (ho : o.neg = true)
    (compatible : String) : ∃ len, fdt.nodeCheckCompatible o compatible = .ok len ∧
      len.neg = true := by
  have hprop : ∃ len, fdt.getprop o "compatible" = .ok (none, len) ∧ len.neg = true := by
    unfold getprop
    by_cases hcheck : fdt.checkHeader ≠ 0
    · exact ⟨_, if_pos hcheck, checkHeader_neg hcheck⟩
    · rw [if_neg hcheck, checkNodeOffset, if_pos (Or.inl ho)]
      exact ⟨-fdtErrBadoffset, rfl, by decide⟩
  obtain ⟨len, hlen, hneg⟩ := hprop
  refine ⟨len, ?_, hneg⟩
  rw [nodeCheckCompatible, hlen]
  rfl

/-- So no tree has a heartbeat. -/
theorem opalMs_eq (fdt : Fdt) : opalMs fdt = .ok 0 := by
  obtain ⟨len, hlen, hneg⟩ := fdt.nodeCheckCompatible_neg (o := -1) (by decide) "ibm,opal-v3"
  rw [opalMs, hlen]
  exact if_pos hneg

/-- A renamed error is no result. -/
theorem mapError_eq_ok {ε ε' α : Type} {f : ε → ε'} {x : Except ε α} {a : α} :
    x.mapError f = .ok a ↔ x = .ok a := by
  cases x with
  | error e => simp [Except.mapError]
  | ok b => simp [Except.mapError]

section

variable {env : TimeEnv} {fuel : Nat} {opalTimer : TimeReq}

/-- `cpu_init` queues nothing: without a processor it returns at once, and with one it finds no
heartbeat and empties the queue. -/
theorem cpuInit_reqs {fdt : Fdt} {s s' : CpuState}
    (h : cpuInit env fuel opalTimer fdt s = .ok s') : s'.time.reqs ⊆ s.time.reqs := by
  rw [cpuInit, bind_eq_ok] at h
  obtain ⟨node, -, h⟩ := h
  by_cases hneg : node.neg = true
  · rw [if_pos hneg] at h
    obtain rfl := Except.ok.inj h
    exact List.Subset.refl _
  · rw [if_neg hneg, bind_eq_ok] at h
    obtain ⟨slbSize, -, h⟩ := h
    obtain ⟨tbFreq, -, h⟩ := bind_eq_ok.mp h
    obtain ⟨ms, hms, h⟩ := bind_eq_ok.mp h
    rw [mapError_eq_ok, opalMs_eq] at hms
    obtain rfl := Except.ok.inj hms
    rw [mapError_eq_ok, cpuTimers, if_neg (not_not.mpr rfl)] at h
    obtain rfl := Except.ok.inj h
    exact List.nil_subset _

/-- The heartbeat is armed in no tree. -/
theorem cpuInit_not_armed (fdt : Fdt) (m : U32) {s : CpuState} (hs : opalTimer ∉ s.time.reqs) :
    ¬ ∃ s', cpuInit env fuel opalTimer fdt s = .ok s' ∧ s'.Armed opalTimer m := by
  rintro ⟨s', hinit, hqueued, -⟩
  exact hs (cpuInit_reqs hinit hqueued)

end

/-- A root with a processor, and with firmware that wants a heartbeat every 1000 ms. -/
def beatTree : Tree :=
  ⟨[], .node [0x63, 0x70, 0x75] (.prop 4 .nil)
    (.node [0x6f, 0x70, 0x61, 0x6c] (.prop 12 (.prop 4 .nil)) .nil), 0⟩

/-- `beatTree`, flattened. -/
def beatFdt : Fdt where
  mem := memOfWords [0xd00dfeed, 0xb4, 0x28, 0x8c, 0x28, 0x11, 0x10, 0, 0x28, 0x64,
    1, 0, 1, 0x63707500, 3, 4, 0, 0x63707500, 2, 1, 0x6f70616c, 0,
    3, 12, 12, 0x69626d2c, 0x6f70616c, 0x2d763300, 3, 4, 23, 1000, 2, 2, 9,
    0x64657669, 0x63655f74, 0x79706500, 0x636f6d70, 0x61746962, 0x6c650069, 0x626d2c68,
    0x65617274, 0x62656174, 0x2d6d7300]
  ptr := 0x1000

theorem beatFdt_wellFormed : beatFdt.WellFormed beatTree where
  version := by decide +kernel
  small := by decide +kernel
  placed := by decide +kernel
  magic := by decide +kernel
  compatible := by decide +kernel
  holds := by decide +kernel
  stop := by decide +kernel
  fits := by decide +kernel

/-- The firmware's node of `beatTree`. -/
theorem beatFdt_heartbeat : beatFdt.Heartbeat 36 1000 where
  node := by
    have hroot : beatFdt.nextNode (-1) none = .ok (0, none) := by decide +kernel
    have hcpu : beatFdt.nextNode 0 none = .ok (8, none) := by decide +kernel
    have hopal : beatFdt.nextNode 8 none = .ok (36, none) := by decide +kernel
    exact ⟨0, none, hroot, .later (by decide) hcpu (.later (by decide) hopal (.here (by decide)))⟩
  compatible := by decide +kernel
  ms := ⟨beatFdt.ptr + 124, by decide +kernel, by decide +kernel⟩
  ne_zero := by decide

/-- A time base that goes up by 1 with each reading. -/
def beatEnv : TimeEnv where
  mftb n := BitVec.ofNat 64 n
  cb _ _ := ⟨[], false⟩

/-- Nothing is set, and nothing is queued. -/
def beatState : CpuState := ⟨0, 0, 0, ⟨[], fun _ => 0, 0, 0, 0, 0, []⟩⟩

/-- `cpu_init` comes to its end on `beatTree`, and its timer is not queued. -/
theorem cpuInit_not_armed_sample : (cpuInit beatEnv 4 0 beatFdt beatState).isOk = true ∧
    ¬ ∃ s', cpuInit beatEnv 4 0 beatFdt beatState = .ok s' ∧ s'.Armed 0 1000 :=
  ⟨by decide +kernel, cpuInit_not_armed beatFdt 1000 List.not_mem_nil⟩

/-- A tree with a heartbeat that is not armed. -/
theorem cpuInit_misses : ¬ ∀ (env : TimeEnv) (fuel : Nat) (opalTimer : TimeReq) (fdt : Fdt)
    (tree : Tree) (q : FdtInt) (m : U32) (s : CpuState), fdt.WellFormed tree →
    fdt.Heartbeat q m → opalTimer ∉ s.time.reqs →
    ∃ s', cpuInit env fuel opalTimer fdt s = .ok s' ∧ s'.Armed opalTimer m := by
  intro hall
  obtain ⟨s', hinit, hqueued, -⟩ := hall beatEnv 4 0 beatFdt beatTree 36 1000 beatState
    beatFdt_wellFormed beatFdt_heartbeat List.not_mem_nil
  exact List.not_mem_nil (cpuInit_reqs hinit hqueued)

end Prephv
