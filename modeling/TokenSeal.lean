import TokenSeal.Algorithm.Catalog
import TokenSeal.Key.Record
import TokenSeal.Vault
import TokenSeal.Binding.Signer
import TokenSeal.Binding.KeyWrapper
import TokenSeal.Binding.Compressor
import TokenSeal.Memory.Pool
import TokenSeal.Supply.Registry
import TokenSeal.Key.Generate
import TokenSeal.Cipher.Gcm
import TokenSeal.Cipher.Cbc
import TokenSeal.Cipher.KeyWrap
import TokenSeal.Curve.Ecdsa
import TokenSeal.Deflate.Deflate
import TokenSeal.Der.PrivateKey
import TokenSeal.Rsa.Oaep
import TokenSeal.Rsa.Generate
import TokenSeal.Hash.Digest
import TokenSeal.Json.Fields
import TokenSeal.Text.Base64Url
import TokenSeal.Json.Inspect
import TokenSeal.Text.Hex
import TokenSeal.Proofs.Refusal
import TokenSeal.Proofs.KeyOrder
import TokenSeal.Proofs.Nesting
import TokenSeal.Proofs.ExtraMembers
import TokenSeal.Proofs.Acceptance
import TokenSeal.Proofs.CriticalMembers
import TokenSeal.Proofs.Authentication
import TokenSeal.Proofs.CollectionReads
import TokenSeal.Proofs.WrapRoundTrip
import TokenSeal.Proofs.Bursts
import TokenSeal.Proofs.Ownership
import TokenSeal.Proofs.Precedence
import TokenSeal.Proofs.Buffers
import TokenSeal.Proofs.Lending
import TokenSeal.Proofs.Turnover
import TokenSeal.Proofs.KeyExchange
import TokenSeal.Proofs.Records
import TokenSeal.Proofs.Disposal
import TokenSeal.Proofs.WireFormat
import TokenSeal.Proofs.KeySizes
import TokenSeal.Proofs.Passwords
import TokenSeal.Proofs.Unsealing
import TokenSeal.Proofs.OpeningBuffers
import TokenSeal.Proofs.Unwrapping
import TokenSeal.Proofs.Base64Codec
import TokenSeal.Proofs.HeaderRoundTrip
import TokenSeal.Proofs.Signatures
import TokenSeal.Proofs.Chunks
import TokenSeal.Proofs.Resolution
import TokenSeal.Proofs.Certificates
import TokenSeal.Proofs.Secrecy
import TokenSeal.Proofs.Thumbprints
import TokenSeal.Proofs.Agreement
import TokenSeal.Proofs.AuthenticatedInput
import TokenSeal.Proofs.Generation
import TokenSeal.Proofs.HonouredMembers
import TokenSeal.Proofs.Vault
