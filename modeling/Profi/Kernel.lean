import Mathlib

/-!
# Kernel Names and Phases

The label functions of `src/kernel.rs` that fixed vocabularies come from: the class of a
kernel name and the phase of an NVTX range name. Both look for substrings of the ASCII
lower-cased text, first match wins.
-/

namespace Profi

/-- `text.to_ascii_lowercase().contains(word)` for some `word` of the list. -/
def containsAny (text : String) (words : List String) : Bool :=
  words.any fun word => decide (word.toList <:+: text.toList.map Char.toLower)

/-- `classify_kernel`. -/
def classifyKernel (name : String) : String :=
  if containsAny name
      ["flash_fwd", "flash_bwd", "paged_attention", "radix_attention", "attention", "sdpa"] then
    "attention"
  else if containsAny name ["gemm", "cgemm", "cutlass", "linear", "matmul"] then "gemm"
  else if containsAny name ["nccl", "allreduce", "allgather", "reduce_scatter"] then "collective"
  else if containsAny name ["softmax", "layernorm", "rms_norm", "gelu", "silu"] then "activation"
  else if containsAny name ["memset", "memcpy", "copy", "transpose"] then "memory"
  else if containsAny name ["sampling", "topk", "argmax"] then "sampling"
  else "other"

/-- `sanitize_phase`. -/
def sanitizePhase (raw : String) : String :=
  if raw.isEmpty then ""
  else if containsAny raw ["prefill", "prompt", "encode"] then "prefill"
  else if containsAny raw ["decode", "generate"] then "decode"
  else if containsAny raw ["attention", "attn"] then "attention"
  else if containsAny raw ["mlp", "ffn", "expert"] then "mlp"
  else if containsAny raw ["norm", "embed"] then "norm"
  else "other"

end Profi
