import DocRepair.Main
import DocRepair.Store.Guarded
import DocRepair.Store.Remote
import DocRepair.Proofs.CommandLine
import DocRepair.Proofs.Preview
import DocRepair.Proofs.OneByOne
import DocRepair.Proofs.Outcomes
import DocRepair.Proofs.Interleaving
import DocRepair.Proofs.Reached
import DocRepair.Proofs.Created
import DocRepair.Proofs.References
import DocRepair.Proofs.Transferred
import DocRepair.Proofs.Rehearsed
import DocRepair.Proofs.Mirrored
import DocRepair.Proofs.Addressed
import DocRepair.Proofs.Removed
import DocRepair.Proofs.Answered
import DocRepair.Proofs.Commuting
import DocRepair.Proofs.Lawful
import DocRepair.Proofs.Landable
import DocRepair.Proofs.Reloaded
import DocRepair.Proofs.Garbled
import DocRepair.Proofs.Spelled
import DocRepair.Proofs.Taken
import DocRepair.Proofs.Moved
import DocRepair.Proofs.Deduplicated
import DocRepair.Proofs.Queried
import DocRepair.Proofs.Escapes
import DocRepair.Proofs.Denoted
import DocRepair.Proofs.Undone
import DocRepair.Proofs.Projected
import DocRepair.Proofs.Truth
import DocRepair.Proofs.Refused
import DocRepair.Proofs.Spellings
import DocRepair.Proofs.Undivided
import DocRepair.Proofs.Refiled
import DocRepair.Proofs.Retrieved
import DocRepair.Proofs.Literals
import DocRepair.Proofs.Arranged
import DocRepair.Proofs.Cached
import DocRepair.Proofs.Doubled
import DocRepair.Proofs.Dotted
