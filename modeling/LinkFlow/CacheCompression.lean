/-
Compression of cached values (`compress` and `decompress` in `pkg/cache/redis_cache.go`).

gzip is a parameter that reads back what it wrote. A compressed value begins with the byte 1. A
value below the threshold is stored as it is, also if it begins with that byte; if gzip accepts the
rest of it, something else is read back (`decompress_compress_iff`).
-/
import LinkFlow.Lib.Codec
import Mathlib.Data.Int.Notation

set_option autoImplicit false

namespace LinkFlow.RedisCache

/-- `compress/gzip`; writing may fail, and not every text is a gzip stream. -/
abbrev Gzip := Codec (List UInt8) (List UInt8)

variable (gz : Gzip) (compressionThreshold : ℤ) (data : List UInt8)

def compress : List UInt8 :=
  if data.length < compressionThreshold then data
  else
    match gz.encode data with
    | none => data
    | some stream => 1 :: stream

def decompress : List UInt8 :=
  match data with
  | [] => data
  | flag :: stream => if flag ≠ 1 then data else (gz.decode stream).getD data

variable {gz compressionThreshold data}

theorem decompress_compressed {stream : List UInt8} (h : gz.encode data = some stream) :
    decompress gz (1 :: stream) = data := by
  rw [decompress, if_neg (not_not.mpr rfl), gz.decode_encode data stream h, Option.getD_some]

theorem decompress_eq_self_iff : decompress gz data = data ↔
      ∀ stream, data = 1 :: stream → ∀ value ∈ gz.decode stream, value = data := by
  unfold decompress
  split
  · simp
  · next flag stream =>
      split_ifs with hflag
      · simp [hflag]
      · obtain rfl := not_not.mp hflag
        cases hvalue : gz.decode stream <;> simp [hvalue]

/-- **The round trip.** A value is read back exactly if it is compressed, or is no compressed
value itself: it does not begin with the flag, or gzip refuses the rest. -/
theorem decompress_compress_iff (gz : Gzip) (compressionThreshold : ℤ) (data : List UInt8) :
    decompress gz (compress gz compressionThreshold data) = data ↔
      (compressionThreshold ≤ data.length ∧ (gz.encode data).isSome) ∨
        ∀ stream, data = 1 :: stream → ∀ value ∈ gz.decode stream, value = data := by
  rw [compress, ← decompress_eq_self_iff]
  split_ifs with hbelow
  · have hnot : ¬ compressionThreshold ≤ data.length := Int.not_le.mpr hbelow
    simp [hnot]
  · cases hstream : gz.encode data with
    | none => simp
    | some stream => simp [decompress_compressed hstream, Int.not_lt.mp hbelow]

/-- Whatever gzip makes of the empty text: with the flag before it and a threshold above its
length, the empty text is read back. -/
theorem stream_misread : ¬ ∃ gz : Gzip, (gz.encode []).isSome ∧
      ∀ compressionThreshold data,
        decompress gz (compress gz compressionThreshold data) = data := by
  rintro ⟨gz, hempty, hround⟩
  obtain ⟨stream, hstream⟩ := Option.isSome_iff_exists.mp hempty
  have hback := hround ((1 :: stream : List UInt8).length + 1) (1 :: stream)
  rw [compress, if_pos (by omega), decompress_compressed hstream] at hback
  cases hback

end LinkFlow.RedisCache
