import SealedStore.Backend.Unreliable
import SealedStore.Cache.Upkeep
import SealedStore.Config
import SealedStore.Server.Script
import SealedStore.Store.Records
import SealedStore.Proofs.Keyspace.Commit
import SealedStore.Proofs.Store.TimedMap
import SealedStore.Proofs.Store.NewestPut
import SealedStore.Proofs.Store.UniqueIndex
import SealedStore.Proofs.Store.StaleEntry
import SealedStore.Proofs.Text.Glob
import SealedStore.Proofs.Store.Scan
import SealedStore.Proofs.Server.Commit
import SealedStore.Proofs.Keyspace.Expiry
import SealedStore.Proofs.Time.Timestamp
import SealedStore.Proofs.Envelope.RoundTrip
import SealedStore.Proofs.Store.ReadBack
import SealedStore.Proofs.Store.ScanSpace
import SealedStore.Proofs.Store.RecordFrame
import SealedStore.Proofs.Store.EntryFrame
import SealedStore.Proofs.Store.NumberedPut
import SealedStore.Proofs.Store.RecordReadBack
import SealedStore.Proofs.Store.Secrecy
import SealedStore.Proofs.Cache.Balance
import SealedStore.Proofs.Store.Tampering
import SealedStore.Proofs.Cache.Trim
import SealedStore.Proofs.Store.HashRecord
import SealedStore.Proofs.Store.SpentNumber
import SealedStore.Proofs.Store.DeletedCounter
import SealedStore.Proofs.Text.GlobLanguage
import SealedStore.Proofs.Cache.GreatestAge
import SealedStore.Proofs.Cipher.RoundTrip
import SealedStore.Proofs.Keyspace.Deadline
import SealedStore.Proofs.Store.Fanout
import SealedStore.Proofs.Keyspace.PlainWrites
import SealedStore.Proofs.Server.Conversation
import SealedStore.Proofs.Server.Paging
import SealedStore.Proofs.Envelope.Rewrapping
import SealedStore.Proofs.Store.IndexedTexts
