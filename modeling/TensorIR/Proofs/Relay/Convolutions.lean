import TensorIR.Proofs.Relay.Products
import TensorIR.Proofs.Relay.Windows

/-!
# What convolutions accept

The attributes of a convolution are signed numbers, and its extents are unsigned. Where one is
compared with the other, the numbers themselves have to agree: the channels of the data with those
of the weight in every group (`GroupsExact`), and a requested kernel with that of the weight
(`KernelExact`). The output extents are those that strides, dilation and padding give in exact
arithmetic (`ExtentsExact`). Only a requested number of output channels is compared by its 64 bits.
A negative number has the bits of a greater one, and that is the one way to request something else
than what the weight has (`conv2d_exact_iff`).
-/

namespace TensorIR

theorem Dim.mem_known? {d : Dim} {n : Nat} : n ∈ d.known? ↔ d = .known n := by
  cases d <;> simp [known?]

/-- The known extents of all operands fit in 64 bits. -/
def Inputs.ExtentsFit (i : Inputs) : Prop :=
  ∀ o ∈ i.operands, ∀ ty ∈ o, ∀ d ∈ ty.dims, ∀ n ∈ d.known?, n < extentLimit

instance (i : Inputs) : Decidable i.ExtentsFit :=
  inferInstanceAs (Decidable (∀ o ∈ i.operands, _))

theorem Inputs.ExtentsFit.operandDims {i : Inputs} (h : i.ExtentsFit) {k : Nat} {ds : List Dim}
    (hds : i.operandDims k = .ok ds) : ∀ d ∈ ds, ∀ n ∈ d.known?, n < extentLimit :=
  ensures_operandDims (P := fun ds => ∀ d ∈ ds, ∀ n ∈ d.known?, n < extentLimit)
    (fun ty hty => h _ hty ty rfl) k ds hds

namespace Relay

variable {i : Inputs} {values : List Int}

/-! ## Signed numbers -/

theorem positive_eq_ok_iff {what : String} {value : Int} {n : Nat} :
    positive what value = .ok n ↔ 0 < n ∧ value = n := by
  unfold positive
  split
  · refine iff_of_false (by simp) ?_
    omega
  · rw [Except.ok.injEq]
    omega

/-- A number is read as itself, or as a negative one if its highest bit is set. -/
theorem signedWord_cases {n : Nat} (h : n < extentLimit) :
    signedWord n = n ∨ signedWord n < 0 ∧ signedWord n = n - extentLimit := by
  have hlimit : extentLimit = 2 ^ 64 := rfl
  rw [signedWord, Int.bmod_def, Int.emod_eq_of_lt (Int.natCast_nonneg n) (Int.ofNat_lt.2 h)]
  split <;> omega

/-- One number for both axes, or one for each. -/
def Spatial.ListedAs (s : Spatial) (values : List Int) : Prop :=
  values = [(s.height : Int)] ∧ s.width = s.height ∨ values = [(s.height : Int), (s.width : Int)]

theorem Spatial.listedAs_of_ofList {what : String} {s : Spatial}
    (h : Spatial.ofList what values = .ok s) : s.ListedAs values := by
  unfold ofList at h
  split at h
  · obtain ⟨n, hn, hs⟩ := Fallible.bind_eq_ok_iff.1 h
    obtain ⟨-, rfl⟩ := positive_eq_ok_iff.1 hn
    cases hs
    exact .inl ⟨rfl, rfl⟩
  · simp only [Fallible.bind_eq_ok_iff] at h
    obtain ⟨m, hm, n, hn, hs⟩ := h
    obtain ⟨-, rfl⟩ := positive_eq_ok_iff.1 hm
    obtain ⟨-, rfl⟩ := positive_eq_ok_iff.1 hn
    cases hs
    exact .inr rfl
  · cases h

/-- One number for all sides, one for top and bottom and one for left and right, or one for each
side in the order top, left, bottom, right. -/
def Padding.ListedAs (pad : Padding) (values : List Int) : Prop :=
  values = [(pad.top : Int)] ∧ (pad.left = pad.top ∧ pad.bottom = pad.top ∧ pad.right = pad.top) ∨
  values = [(pad.top : Int), (pad.left : Int)] ∧ (pad.bottom = pad.top ∧ pad.right = pad.left) ∨
  values = [(pad.top : Int), (pad.left : Int), (pad.bottom : Int), (pad.right : Int)]

theorem Padding.listedAs_of_ofList {pad : Padding} (h : Padding.ofList values = .ok pad) :
    pad.ListedAs values := by
  unfold ofList at h
  split at h
  · cases h
  · next hneg =>
    have hcast : values = (values.map Int.toNat).map fun n : Nat => (n : Int) := by
      rw [List.map_map]
      refine (List.map_id' values).symm.trans (List.map_congr_left fun v hv => ?_)
      have hle : ¬v < 0 := by simpa using List.find?_eq_none.1 hneg v hv
      exact (Int.toNat_of_nonneg (by omega)).symm
    rw [hcast]
    split at h
    · next p hp =>
      cases h
      rw [hp]
      exact .inl ⟨rfl, rfl, rfl, rfl⟩
    · next v w hp =>
      cases h
      rw [hp]
      exact .inr (.inl ⟨rfl, rfl, rfl⟩)
    · next t l b r hp =>
      cases h
      rw [hp]
      exact .inr (.inr rfl)
    · cases h

/-! ## Windows in exact arithmetic -/

/-- The output extent is open exactly if the extent of the axis is, and else it is what exact
arithmetic gives. -/
def Window.Exact (w : Window) (d out : Dim) : Prop :=
  (out = .dynamic ↔ d = .dynamic) ∧
    ∀ extent ∈ d.known?, ∃ n ∈ out.known?,
      (n : Int) = Int.fdiv ((extent : Int) + (w.before + w.after) -
        (w.dilation * (w.size - 1) + 1)) w.stride + 1

theorem Window.exact_of_outputDim {w : Window} (hceil : w.ceil = false) {d out : Dim}
    (h : w.outputDim d = .ok out) : w.Exact d out := by
  cases d with
  | dynamic =>
    cases h
    exact ⟨Iff.rfl, by simp [Dim.known?]⟩
  | known extent =>
    obtain ⟨n, hn, rfl⟩ := outputDim_known_eq_ok_iff.1 h
    have hsize : w.size ≠ 0 := by
      intro hsize
      unfold outputExtent at hn
      rw [if_pos hsize] at hn
      cases hn
    obtain ⟨⟨-, -, hle⟩, rfl⟩ := (outputExtent_eq_ok_iff hsize).1 hn
    refine ⟨by simp, ?_⟩
    rintro _ ⟨⟩
    have hspan : (extent : Int) + (w.before + w.after) - (w.dilation * (w.size - 1) + 1) =
        ((w.padded extent - w.effective : Nat) : Int) := by
      rw [Int.ofNat_sub hle, padded, effective]
      push_cast [Nat.one_le_iff_ne_zero.2 hsize]
      omega
    refine ⟨_, rfl, ?_⟩
    rw [hspan, Int.fdiv_eq_ediv_of_nonneg _ (Int.natCast_nonneg _), steps, hceil]
    rfl

/-! ## Requests -/

/-- What the attributes of a convolution ask for, as they are listed. -/
structure Convolution where
  groups : Int
  channels : Option Int
  size : Option (List Int)
  strides : List Int
  dilation : List Int
  padding : List Int
  deriving DecidableEq

namespace Convolution

variable {r : Convolution} {data weight : Dim} {kernel : Spatial}

/-- The attributes of a convolution. -/
def ofInputs (i : Inputs) : Except Fault Convolution := do
  return {
    groups := ← i.attrD Attr.toInt "groups" 1
    channels := ← i.attr? Attr.toInt "channels"
    size := ← i.attr? Attr.toInts "kernel_size"
    strides := ← i.attrD Attr.toInts "strides" [1]
    dilation := ← i.attrD Attr.toInts "dilation" [1]
    padding := ← i.attrD Attr.toInts "padding" [0] }

/-- The channels of the data are those of the weight in every group. -/
def GroupsExact (r : Convolution) (data weight : Dim) : Prop :=
  0 < r.groups ∧ ∀ c ∈ data.known?, ∀ i ∈ weight.known?, (c : Int) = i * r.groups

/-- The requested number of output channels is that of the weight. -/
def ChannelsExact (r : Convolution) (weight : Dim) : Prop :=
  ∀ channels ∈ r.channels, ∀ o ∈ weight.known?, channels = (o : Int)

/-- The requested kernel is that of the weight. -/
def KernelExact (r : Convolution) (kernel : Spatial) : Prop :=
  ∀ values ∈ r.size, kernel.ListedAs values

/-- The output extents are those of the requested windows. -/
def ExtentsExact (r : Convolution) (kernel : Spatial) (h w height width : Dim) : Prop :=
  ∃ (strides dilation : Spatial) (pad : Padding),
    (strides.ListedAs r.strides ∧ strides.height ≠ 0 ∧ strides.width ≠ 0) ∧
    (dilation.ListedAs r.dilation ∧ dilation.height ≠ 0 ∧ dilation.width ≠ 0) ∧
    pad.ListedAs r.padding ∧
    Window.Exact ⟨kernel.height, strides.height, dilation.height, pad.top, pad.bottom, false⟩
      h height ∧
    Window.Exact ⟨kernel.width, strides.width, dilation.width, pad.left, pad.right, false⟩ w width

/-- The request is a negative number with the bits of the number of output channels. -/
def ChannelsWrap (r : Convolution) (weight : Dim) : Prop :=
  ∃ channels ∈ r.channels, ∃ o ∈ weight.known?, channels < 0 ∧ channels = (o : Int) - extentLimit

theorem groupsExact_of_checkGroups {groups : Nat}
    (hgroups : positive "groups" r.groups = .ok groups)
    (h : checkGroups data weight groups = .ok ()) : r.GroupsExact data weight := by
  obtain ⟨hpos, hgroups⟩ := positive_eq_ok_iff.1 hgroups
  refine ⟨by omega, ?_⟩
  intro c hc i hi
  rw [Dim.mem_known?] at hc hi
  subst hc hi
  rcases Nat.lt_or_ge (i * groups) extentLimit with hlt | hge
  · have hproduct : c = i * groups := by simpa [checkGroups, checkedMul_of_lt hlt] using h
    rw [hproduct, hgroups, Int.natCast_mul]
  · simp [checkGroups, checkedMul_of_le hge] at h

theorem kernelExact_of_checkKernel (h : checkKernel r.size kernel = .ok ()) :
    r.KernelExact kernel := by
  intro values hvalues
  rw [Option.mem_def.1 hvalues] at h
  cases hsize : Spatial.ofList "kernel_size" values with
  | error e => simp [checkKernel, hsize] at h
  | ok size =>
    have heq : size = kernel := by simpa [checkKernel, hsize] using h
    exact heq ▸ Spatial.listedAs_of_ofList hsize

theorem channelsExact_iff (hfits : ∀ o ∈ weight.known?, o < extentLimit)
    (h : checkChannels r.channels weight = .ok ()) :
    r.ChannelsExact weight ↔ ¬r.ChannelsWrap weight := by
  constructor
  · rintro hexact ⟨channels, hchannels, o, ho, hneg, -⟩
    have hsame := hexact channels hchannels o ho
    omega
  · intro hwrap channels hchannels o ho
    rw [Option.mem_def.1 hchannels, Dim.mem_known?.1 ho] at h
    have hword : signedWord o = channels := by simpa [checkChannels] using h
    rcases signedWord_cases (hfits o ho) with hsame | ⟨hneg, hless⟩
    · exact hword.symm.trans hsame
    · exact absurd ⟨channels, hchannels, o, ho, hword ▸ hneg, hword ▸ hless⟩ hwrap

end Convolution

/-! ## The rule -/

/-- What a convolution has checked, and what it infers. -/
theorem exists_of_conv2d {cs : List Component} (hcs : conv2d i = .ok cs) :
    ∃ (r : Convolution) (n c h w o ci : Dim) (kernel : Spatial) (height width : Dim),
      Convolution.ofInputs i = .ok r ∧ i.operandDims 0 = .ok [n, c, h, w] ∧
      i.operandDims 1 = .ok [o, ci, .known kernel.height, .known kernel.width] ∧
      r.GroupsExact c ci ∧ checkChannels r.channels o = .ok () ∧ r.KernelExact kernel ∧
      r.ExtentsExact kernel h w height width ∧ cs = single [n, o, height, width] := by
  obtain ⟨data, hdata, hrest⟩ := Fallible.bind_eq_ok_iff.1 hcs
  obtain ⟨weight, hweight, hcs⟩ := Fallible.bind_eq_ok_iff.1 hrest
  split at hcs
  case h_2 => cases hcs
  next n c h w o ci kh kw =>
  -- each attribute is read only when the checks before it have passed
  simp only [Fallible.bind_eq_ok_iff, Defect.lift, Fallible.mapError_eq_ok_iff] at hcs
  obtain ⟨groups, hgroups, count, hcount, ⟨⟩, hchecked, channels, hchannels, ⟨⟩, hsame, kernel,
    hkernel, size, hsize, ⟨⟩, hagrees, steps, hsteps, strides, hstrides, gaps, hgaps, dilation,
    hdilation, sides, hsides, pad, hpad, height, hheight, width, hwidth, hcs⟩ := hcs
  cases hcs
  have hrequest : Convolution.ofInputs i = .ok ⟨groups, channels, size, steps, gaps, sides⟩ := by
    simp only [Convolution.ofInputs, Fallible.bind_eq_ok_iff]
    exact ⟨groups, hgroups, channels, hchannels, size, hsize, steps, hsteps, gaps, hgaps, sides,
      hsides, rfl⟩
  have hextents : kh = .known kernel.height ∧ kw = .known kernel.width := by
    unfold kernelExtents at hkernel
    split at hkernel
    · cases hkernel
      exact ⟨rfl, rfl⟩
    · cases hkernel
  obtain ⟨rfl, rfl⟩ := hextents
  refine ⟨_, n, c, h, w, o, ci, kernel, height, width, hrequest, hdata, hweight,
    Convolution.groupsExact_of_checkGroups hcount hchecked, hsame,
    Convolution.kernelExact_of_checkKernel hagrees, ?_, rfl⟩
  exact ⟨strides, dilation, pad,
    ⟨Spatial.listedAs_of_ofList hstrides, Machine.spatial_pos hstrides⟩,
    ⟨Spatial.listedAs_of_ofList hdilation, Machine.spatial_pos hdilation⟩,
    Padding.listedAs_of_ofList hpad,
    Window.exact_of_outputDim rfl hheight, Window.exact_of_outputDim rfl hwidth⟩

theorem rule?_conv2d : registry.rule? "relay.nn.conv2d" = some (ShapeRule.ofInputs conv2d) :=
  rule?_of_mem (o := operator "nn.conv2d" .outputFusable (.ofInputs conv2d)) (by simp [operators])

/-- **Convolutions are exact.** If a convolution infers a shape, then its data and its weight have
rank 4 and the kernel is known. The channels of the data and the kernel are as the attributes
request them, as integers. The result has the batch of the data and the output channels of the
weight, and each spatial extent is open exactly if that of the data is, and else the one that exact
arithmetic gives for the requested strides, dilation and padding. The requested number of output
channels is that of the weight, as an integer, unless it wraps: a negative request is accepted if it
is the number of output channels less `2 ^ 64`. -/
theorem conv2d_exact_iff {c : Context} {rule : ShapeRule} {cs : List Component}
    (hrule : registry.rule? "relay.nn.conv2d" = some rule) (hfits : c.inputs.ExtentsFit)
    (hcs : rule c = .ok cs) :
    ∃ (r : Convolution) (n ch h w o ci : Dim) (kernel : Spatial) (height width : Dim),
      Convolution.ofInputs c.inputs = .ok r ∧
      c.inputs.operandDims 0 = .ok [n, ch, h, w] ∧
      c.inputs.operandDims 1 = .ok [o, ci, .known kernel.height, .known kernel.width] ∧
      cs = single [n, o, height, width] ∧
      r.GroupsExact ch ci ∧ r.KernelExact kernel ∧ r.ExtentsExact kernel h w height width ∧
      (r.ChannelsExact o ↔ ¬r.ChannelsWrap o) := by
  rw [rule?_conv2d] at hrule
  cases hrule
  obtain ⟨r, n, ch, h, w, o, ci, kernel, height, width, hrequest, hdata, hweight, hgroups,
    hchannels, hkernel, hextents, rfl⟩ := exists_of_conv2d (ShapeRule.ofInputs_eq_ok_iff.1 hcs)
  have hfits := hfits.operandDims hweight o List.mem_cons_self
  exact ⟨r, n, ch, h, w, o, ci, kernel, height, width, hrequest, hdata, hweight, rfl, hgroups,
    hkernel, hextents, Convolution.channelsExact_iff hfits hchannels⟩

/-- Two groups, gaps between the rows of the kernel and a different padding on each side. -/
theorem conv2d_exact_iff_sides :
    let data : Ty := .tensor ⟨.f32, [.dynamic, .known 6, .known 11, .known 9]⟩
    let weight : Ty := .tensor ⟨.f32, [.known 4, .known 3, .known 3, .known 2]⟩
    let op : Operation :=
      { name := ⟨"relay.nn.conv2d"⟩, operands := [0, 1]
        attributes := StringMap.ofList
          [("groups", .int 2), ("channels", .int 4), ("kernel_size", .ints [3, 2]),
            ("strides", .ints [2, 1]), ("dilation", .ints [2, 1]),
            ("padding", .ints [1, 0, 3, 2])] }
    let c : Context := ⟨op, (Func.empty "main").after [.addArgument data, .addArgument weight]⟩
    let r : Convolution := ⟨2, some 4, some [3, 2], [2, 1], [2, 1], [1, 0, 3, 2]⟩
    ShapeRule.ofInputs conv2d c = .ok (single [.dynamic, .known 4, .known 6, .known 10]) ∧
      Convolution.ofInputs c.inputs = .ok r ∧
      r.GroupsExact (.known 6) (.known 3) ∧ r.KernelExact ⟨3, 2⟩ ∧
      r.ExtentsExact ⟨3, 2⟩ (.known 11) (.known 9) (.known 6) (.known 10) ∧
      r.ChannelsExact (.known 4) := by
  intro data weight op c r
  have hcs : ShapeRule.ofInputs conv2d c =
      .ok (single [.dynamic, .known 4, .known 6, .known 10]) := by decide +kernel
  have hasked : Convolution.ofInputs c.inputs = .ok r := by decide +kernel
  have hdims : c.inputs.operandDims 0 = .ok [.dynamic, .known 6, .known 11, .known 9] := rfl
  have hdims' : c.inputs.operandDims 1 = .ok [.known 4, .known 3, .known 3, .known 2] := rfl
  obtain ⟨r', _, _, _, _, _, _, ⟨kh, kw⟩, _, _, hrequest, hdata, hweight, heq, hgroups, hkernel,
    hextents, hchannels⟩ := conv2d_exact_iff rule?_conv2d (by decide +kernel) hcs
  cases hasked.symm.trans hrequest
  cases hdims.symm.trans hdata
  cases hdims'.symm.trans hweight
  cases heq
  refine ⟨hcs, hasked, hgroups, hkernel, hextents, hchannels.2 ?_⟩
  rintro ⟨channels, hchannels, -, -, hneg, -⟩
  cases hchannels
  exact absurd hneg (by decide)

/-- A request for `-1` output channels is accepted, and leads to one less than `2 ^ 64`. -/
theorem conv2d_wraps :
    let data : Ty := .tensor ⟨.f32, [.known 1, .known 1, .known 1, .known 1]⟩
    let weight : Ty := .tensor ⟨.f32, [.known (2 ^ 64 - 1), .known 1, .known 1, .known 1]⟩
    let op : Operation :=
      { name := ⟨"relay.nn.conv2d"⟩, operands := [0, 1]
        attributes := StringMap.ofList [("channels", .int (-1))] }
    let c : Context := ⟨op, (Func.empty "main").after [.addArgument data, .addArgument weight]⟩
    let r : Convolution := ⟨1, some (-1), none, [1], [1], [0]⟩
    c.inputs.ExtentsFit ∧
      registry.infer? c =
        some (.ok (single [.known 1, .known (2 ^ 64 - 1), .known 1, .known 1])) ∧
      Convolution.ofInputs c.inputs = .ok r ∧ ¬r.ChannelsExact (.known (2 ^ 64 - 1)) := by
  intro data weight op c r
  have hcs : ShapeRule.ofInputs conv2d c =
      .ok (single [.known 1, .known (2 ^ 64 - 1), .known 1, .known 1]) := by decide +kernel
  refine ⟨by decide +kernel, ?_, by decide +kernel, fun h => ?_⟩
  · rw [Registry.infer?, rule?_conv2d, ← hcs]
    rfl
  · exact absurd (h (-1) rfl _ rfl) (by decide)

end Relay

end TensorIR
